import ServiceFlow.Program.Pool

/-!
# Looking up classes

A class that loads has the name it was asked for.  A view depends on what its own names load.
-/

namespace ServiceFlow

theorem ClassDecl.name_of_ofDocument {c : ClassName} {j : Option Json} {d : ClassDecl}
    (h : ofDocument c j = .ok d) :
  d.name = c
  := by
  unfold ofDocument at h
  split at h
  · cases h
  · split at h
    · next hname =>
      obtain rfl := Except.ok.inj h
      apply hname
    · cases h

namespace ClassPool

variable {p q : ClassPool} {c : ClassName} {d : ClassDecl}

theorem fits_of_source? {source : ClassSource} (h : p.source? c = some source) :
  source.Fits c
  := by
  obtain ⟨e, he, rfl⟩ := Option.map_eq_some_iff.1 h
  have hname : e.1 = c := by simpa using List.find?_some he
  rw [← hname]
  apply p.fitting e (List.mem_of_find?_eq_some he)

/-- A class is loaded under its own name. -/
theorem name_of_load (h : p.load c = .ok d) :
  d.name = c
  := by
  unfold load at h
  split at h
  · next source hsource =>
    cases source with
    | text s => apply ClassDecl.name_of_ofDocument h
    | document j => apply ClassDecl.name_of_ofDocument h
    | decl d' =>
        obtain rfl := Except.ok.inj h
        apply fits_of_source? hsource
  · cases h

/-- A class that is not in the program is missed by its own name. -/
theorem contains_iff_load :
  p.contains c ↔ p.load c ≠ .error (.classNotFound c)
  := by
  have hdocument : ∀ j, ClassDecl.ofDocument c j ≠ .error (.classNotFound c) := by
    intro j
    unfold ClassDecl.ofDocument
    split
    · simp
    · split <;> simp
  unfold contains load
  cases p.source? c with
  | none => simp
  | some source =>
      cases source with
      | text s => simpa [ClassSource.load, ClassDecl.ofText] using hdocument (Json.parse? s)
      | document j => simpa [ClassSource.load] using hdocument (some j)
      | decl d => simp [ClassSource.load]

/-- The view of some names depends on what these names load. -/
theorem view_congr {names : List ClassName} (h : ∀ c ∈ names, p.load c = q.load c) :
  p.view names = q.view names
  := by
  have hloads : names.mapM p.load = names.mapM q.load := by
    induction names with
    | nil => rfl
    | cons c names ih =>
        obtain ⟨hc, hnames⟩ := List.forall_mem_cons.1 h
        rw [List.mapM_cons, List.mapM_cons, hc, ih hnames]
  rw [view, view, hloads]

theorem view_singleton (h : p.load c = .ok d) :
  p.view [c] = .ok (.ofList [d])
  := by
  simp only [view, List.mapM_cons, List.mapM_nil, h]
  rfl

end ClassPool

end ServiceFlow
