import Mathlib.Data.List.Induction
import ServiceFlow.Proofs.Program.Pool
import ServiceFlow.Proofs.Program.Supergraph

/-!
# What insertions leave in a pool

A pool is filled by insertions, one after another.  It has the inserted names in the order of their
first insertions, and under each name it has what was inserted last.  Nothing that is inserted under
one name shows under another one, whether it can be decoded or not; it fails only the views that
ask for it.
-/

namespace ServiceFlow

/-- What one step puts into a pool: a text, a document or a class. -/
inductive Insertion where
  | text (name : ClassName) (s : String)
  | document (name : ClassName) (j : Json)
  | decl (c : ClassDecl)

namespace Insertion

def name : Insertion → ClassName
  | .text name _ => name
  | .document name _ => name
  | .decl c => c.name

def source : Insertion → ClassSource
  | .text _ s => .text s
  | .document _ j => .document j
  | .decl c => .decl c

theorem fits (i : Insertion) :
  i.source.Fits i.name
  := by
  cases i with
  | text name s => trivial
  | document name j => trivial
  | decl c => rfl

/-- The class that was inserted, or what is wrong with its document. -/
def load (i : Insertion) : Except ScopeError ClassDecl := i.source.load i.name

/-- The last insertion under a name. -/
def last? (l : List Insertion) (c : ClassName) : Option Insertion :=
  l.reverse.find? (fun i => i.name = c)

theorem name_of_last? {l : List Insertion} {c : ClassName} {i : Insertion}
    (h : last? l c = some i) :
  i.name = c
  := by
  rw [last?] at h
  simpa using List.find?_some h

theorem last?_append_singleton (l : List Insertion) (i : Insertion) (c : ClassName) :
  last? (l ++ [i]) c = if i.name = c then some i else last? l c
  := by
  rw [last?, List.reverse_append, List.reverse_singleton, List.singleton_append, List.find?_cons]
  by_cases h : i.name = c
  · simp [h]
  · simp [h, last?]

theorem last?_eq_some {before after : List Insertion} {i : Insertion}
    (h : ∀ j ∈ after, j.name ≠ i.name) :
  last? (before ++ i :: after) i.name = some i
  := by
  rw [last?, List.find?_eq_some_iff_append]
  refine ⟨by simp, after.reverse, before.reverse, by simp, ?_⟩
  intro j hj
  simpa using h j (List.mem_reverse.1 hj)

theorem last?_eq_none {l : List Insertion} {c : ClassName} (h : c ∉ l.map name) :
  last? l c = none
  := by
  rw [last?, List.find?_eq_none]
  intro i hi hname
  apply h
  rw [← of_decide_eq_true hname]
  apply List.mem_map_of_mem (List.mem_reverse.1 hi)

/-- What was inserted under another name does not count. -/
theorem last?_filter (l : List Insertion) {n c : ClassName} (h : c ≠ n) :
  last? (l.filter (fun i => i.name ≠ n)) c = last? l c
  := by
  rw [last?, ← List.filter_reverse, List.find?_filter, last?]
  congr 1
  funext i
  by_cases hname : i.name = c
  · simp [hname, h]
  · simp [hname]

end Insertion

namespace ClassPool

/-! ### Insertions -/

theorem find?_insertEntry (name : ClassName) (source : ClassSource) (c : ClassName)
    (l : List (ClassName × ClassSource)) :
  ((insertEntry name source l).find? (fun e => e.1 = c)).map Prod.snd =
    if name = c then some source else (l.find? (fun e => e.1 = c)).map Prod.snd
  := by
  induction l with
  | nil => by_cases hname : name = c <;> simp [insertEntry, hname]
  | cons e l ih =>
      rw [insertEntry]
      by_cases he : e.1 = name
      · by_cases hname : name = c <;> simp [he, hname]
      · rw [if_neg he, List.find?_cons, List.find?_cons]
        by_cases hec : e.1 = c
        · have hname : name ≠ c := fun hname => he (hec.trans hname.symm)
          simp [hec, hname]
        · simpa [hec] using ih

section

variable (p : ClassPool) {name : ClassName} {source : ClassSource} (h : source.Fits name)

theorem names_insert :
  (p.insert name source h).names = if name ∈ p.names then p.names else p.names ++ [name]
  := names_insertEntry name source p.entries

theorem source?_insert (c : ClassName) :
  (p.insert name source h).source? c = if name = c then some source else p.source? c
  := find?_insertEntry name source c p.entries

end

theorem contains_iff_mem_names (p : ClassPool) (c : ClassName) :
  p.contains c ↔ c ∈ p.names
  := by
  simp [contains, source?, names]

/-- The pool after an insertion. -/
def take (p : ClassPool) : Insertion → ClassPool
  | .text name s => p.insertText name s
  | .document name j => p.insert name (.document j) trivial
  | .decl c => p.insertClass c

theorem take_eq_insert (p : ClassPool) (i : Insertion) :
  p.take i = p.insert i.name i.source i.fits
  := by
  cases i <;> rfl

/-- The pool that some insertions fill. -/
def ofInsertions (l : List Insertion) : ClassPool := l.foldl take empty

theorem ofInsertions_append_singleton (l : List Insertion) (i : Insertion) :
  ofInsertions (l ++ [i]) = (ofInsertions l).take i
  := by
  rw [ofInsertions, List.foldl_append]
  rfl

theorem names_ofInsertions (l : List Insertion) :
  (ofInsertions l).names = (l.map Insertion.name).eraseDups
  := by
  induction l using List.reverseRecOn with
  | nil => rfl
  | append_singleton l i ih =>
      rw [ofInsertions_append_singleton, take_eq_insert, names_insert, ih, List.map_append,
        List.map_singleton, eraseDups_append_singleton]
      simp only [List.mem_eraseDups]

theorem source?_ofInsertions (l : List Insertion) (c : ClassName) :
  (ofInsertions l).source? c = (Insertion.last? l c).map Insertion.source
  := by
  induction l using List.reverseRecOn with
  | nil => rfl
  | append_singleton l i ih =>
      rw [ofInsertions_append_singleton, take_eq_insert, source?_insert, ih,
        Insertion.last?_append_singleton]
      split
      · rfl
      · rfl

theorem load_ofInsertions (l : List Insertion) (c : ClassName) :
  (ofInsertions l).load c = (Insertion.last? l c).elim (.error (.classNotFound c)) Insertion.load
  := by
  rw [load, source?_ofInsertions]
  cases h : Insertion.last? l c with
  | none => rfl
  | some i =>
      rw [← Insertion.name_of_last? h]
      rfl

/-- The pool answers as the insertions say: each name once, in the order of first insertions, and
under a name what was inserted last. -/
structure Records (p : ClassPool) (l : List Insertion) : Prop where
  names : p.names = (l.map Insertion.name).eraseDups
  size : p.size = p.names.length
  contains : ∀ c, p.contains c ↔ c ∈ p.names
  last : ∀ before i after, l = before ++ i :: after → (∀ j ∈ after, j.name ≠ i.name) →
    p.load i.name = i.load
  missing : ∀ c ∉ l.map Insertion.name, p.load c = .error (.classNotFound c)

theorem records_ofInsertions (l : List Insertion) :
  (ofInsertions l).Records l
  := by
  constructor
  · apply names_ofInsertions
  · rw [size, names, List.length_map]
  · apply contains_iff_mem_names
  · rintro before i after rfl hlast
    rw [load_ofInsertions, Insertion.last?_eq_some hlast, Option.elim_some]
  · intro c hc
    rw [load_ofInsertions, Insertion.last?_eq_none hc, Option.elim_none]

/-- What is inserted under one name does not show under another one. -/
theorem load_ofInsertions_congr {l l' : List Insertion} {n c : ClassName}
    (h : l.filter (fun i => i.name ≠ n) = l'.filter (fun i => i.name ≠ n)) (hc : c ≠ n) :
  (ofInsertions l).load c = (ofInsertions l').load c
  := by
  rw [load_ofInsertions, load_ofInsertions, ← Insertion.last?_filter l hc, h,
    Insertion.last?_filter l' hc]

end ClassPool

/-! ### Views -/

theorem View.map_name_firstOfName (seen : List ClassName) (l : List ClassDecl) :
  (firstOfName seen l).map ClassDecl.name =
    ((l.map ClassDecl.name).filter (fun c => c ∉ seen)).eraseDups
  := by
  induction l generalizing seen with
  | nil => rfl
  | cons c l ih =>
      rw [firstOfName, List.map_cons, List.filter_cons]
      by_cases h : c.name ∈ seen
      · simp [h, ih]
      · have hfilter : ((l.map ClassDecl.name).filter (fun d => d ∉ seen)).filter
            (fun d => !d == c.name) =
          (l.map ClassDecl.name).filter (fun d => d ∉ c.name :: seen) := by
          rw [List.filter_filter]
          congr 1
          funext d
          by_cases hd : d = c.name <;> simp [hd]
        rw [if_neg h, List.map_cons, ih, if_pos (by simp [h]), List.eraseDups_cons, hfilter]

theorem View.mem_of_mem_firstOfName {seen : List ClassName} {l : List ClassDecl} {c : ClassDecl}
    (h : c ∈ firstOfName seen l) :
  c ∈ l
  := by
  induction l generalizing seen with
  | nil => apply h
  | cons d l ih =>
      rw [firstOfName] at h
      split at h
      · apply List.mem_cons_of_mem _ (ih h)
      · rcases List.mem_cons.1 h with rfl | h
        · apply List.mem_cons_self
        · apply List.mem_cons_of_mem _ (ih h)

namespace ClassPool

section

variable {p : ClassPool} {names : List ClassName}

theorem exists_view_eq_ok_iff :
  (∃ v, p.view names = .ok v) ↔ ∀ c ∈ names, ∃ d, p.load c = .ok d
  := by
  rw [← exists_mapM_eq_ok]
  constructor
  · rintro ⟨v, h⟩
    obtain ⟨classes, hclasses, _⟩ := map_eq_ok h
    use classes
  · rintro ⟨classes, hclasses⟩
    use .ofList classes
    rw [view, hclasses]
    rfl

theorem view_eq_error_iff {e : ScopeError} :
  p.view names = .error e ↔ ∃ before c after, names = before ++ c :: after ∧
    (∀ b ∈ before, ∃ d, p.load b = .ok d) ∧ p.load c = .error e
  := by
  rw [← mapM_eq_error_iff, view]
  cases names.mapM p.load with
  | error e' => simp [Except.map]
  | ok classes => simp [Except.map]

/-- A view has the names that were asked for, each where it came first, and the classes that are
loaded under them. -/
theorem classes_of_view {v : View} (h : p.view names = .ok v) :
  v.classes.map ClassDecl.name = names.eraseDups ∧ ∀ d ∈ v.classes, p.load d.name = .ok d
  := by
  obtain ⟨classes, hclasses, rfl⟩ := map_eq_ok h
  constructor
  · have hnames : classes.map ClassDecl.name = names.map id :=
      map_eq_map_of_mapM hclasses (fun c _ d hd => name_of_load hd)
    rw [View.ofList, View.map_name_firstOfName, hnames]
    simp
  · intro d hd
    obtain ⟨c, _, hc⟩ := exists_of_mem_mapM hclasses (View.mem_of_mem_firstOfName hd)
    rw [name_of_load hc, hc]

end

end ClassPool

end ServiceFlow
