import Mathlib.Data.List.Basic

/-!
# Computations that may fail

A sequence of steps succeeds if all its steps do.  A traversal takes the elements of a list in turn:
it yields what its steps yield, or fails with the failure of the first step that does.
-/

namespace ServiceFlow

variable {α β ε : Type}

theorem bind_eq_ok {x : Except ε α} {f : α → Except ε β} {b : β} (h : x >>= f = .ok b) :
  ∃ a, x = .ok a ∧ f a = .ok b
  := by
  cases x with
  | error e => cases h
  | ok a => use a, rfl, h

theorem map_eq_ok {x : Except ε α} {f : α → β} {b : β} (h : x.map f = .ok b) :
  ∃ a, x = .ok a ∧ f a = b
  := by
  cases x with
  | error e => cases h
  | ok a => use a, rfl, Except.ok.inj h

theorem map_eq_error {x : Except ε α} {f : α → β} {e : ε} (h : x.map f = .error e) :
  x = .error e
  := by
  cases x with
  | error e' => rw [Except.error.inj h]
  | ok a => cases h

/-- A traversal that succeeds yields, element by element, what its steps yield. -/
theorem mapM_eq_ok_iff {f : α → Except ε β} {l : List α} {r : List β} :
  l.mapM f = .ok r ↔ l.map f = r.map .ok
  := by
  induction l generalizing r with
  | nil =>
      constructor
      · intro h
        obtain rfl : [] = r := Except.ok.inj h
        rfl
      · intro h
        obtain rfl : r = [] := List.map_eq_nil_iff.1 h.symm
        rfl
  | cons a l ih =>
      rw [List.mapM_cons]
      constructor
      · intro h
        obtain ⟨b, ha, h⟩ := bind_eq_ok h
        obtain ⟨bs, hl, h⟩ := bind_eq_ok h
        obtain rfl : b :: bs = r := Except.ok.inj h
        rw [List.map_cons, List.map_cons, ha, ih.1 hl]
      · intro h
        cases r with
        | nil => cases h
        | cons b bs =>
            obtain ⟨ha, hl⟩ := List.cons.inj h
            rw [ha, ih.2 hl]
            rfl

section

variable {f : α → Except ε β} {l : List α} {r : List β}

theorem mem_of_mapM (h : l.mapM f = .ok r) {a : α} (ha : a ∈ l) {b : β} (hb : f a = .ok b) :
  b ∈ r
  := by
  have hmem := List.mem_map_of_mem (f := f) ha
  rw [mapM_eq_ok_iff.1 h, hb] at hmem
  obtain ⟨b', hb', heq⟩ := List.mem_map.1 hmem
  rw [← Except.ok.inj heq]
  apply hb'

/-- What a traversal yields comes from some element. -/
theorem exists_of_mem_mapM (h : l.mapM f = .ok r) {b : β} (hb : b ∈ r) :
  ∃ a ∈ l, f a = .ok b
  := by
  apply List.mem_map.1
  rw [mapM_eq_ok_iff.1 h]
  apply List.mem_map_of_mem hb

/-- What a traversal yields has the keys of its elements. -/
theorem map_eq_map_of_mapM {κ : Type} {key : β → κ} {key' : α → κ} (h : l.mapM f = .ok r)
    (hkey : ∀ a ∈ l, ∀ b, f a = .ok b → key b = key' a) :
  r.map key = l.map key'
  := by
  induction l generalizing r with
  | nil =>
      obtain rfl : [] = r := Except.ok.inj h
      rfl
  | cons a l ih =>
      obtain ⟨hhead, htail⟩ := List.forall_mem_cons.1 hkey
      rw [List.mapM_cons] at h
      obtain ⟨b, ha, h⟩ := bind_eq_ok h
      obtain ⟨bs, hl, h⟩ := bind_eq_ok h
      obtain rfl : b :: bs = r := Except.ok.inj h
      rw [List.map_cons, List.map_cons, hhead b ha, ih hl htail]

end

/-- A traversal fails with the failure of the first step that does. -/
theorem mapM_eq_error_iff {f : α → Except ε β} {l : List α} {e : ε} :
  l.mapM f = .error e ↔ ∃ before a after, l = before ++ a :: after ∧
    (∀ b ∈ before, ∃ c, f b = .ok c) ∧ f a = .error e
  := by
  induction l with
  | nil => simp [pure, Except.pure]
  | cons a l ih =>
      rw [List.mapM_cons]
      cases ha : f a with
      | error e' =>
          constructor
          · intro h
            obtain rfl : e' = e := Except.error.inj h
            use [], a, l, rfl, nofun, ha
          · rintro ⟨before, b, after, hl, hbefore, hb⟩
            cases before with
            | nil =>
                obtain ⟨rfl, _⟩ := List.cons.inj hl
                obtain rfl : e' = e := Except.error.inj (ha.symm.trans hb)
                rfl
            | cons c before =>
                obtain ⟨rfl, _⟩ := List.cons.inj hl
                obtain ⟨d, hd⟩ := hbefore a List.mem_cons_self
                rw [ha] at hd
                cases hd
      | ok b =>
          have hrest : (Except.ok b >>= fun b => l.mapM f >>= fun bs => pure (b :: bs)) = .error e ↔
              l.mapM f = .error e := by
            cases l.mapM f <;> simp [bind, Except.bind, pure, Except.pure]
          rw [hrest, ih]
          constructor
          · rintro ⟨before, c, after, rfl, hbefore, hc⟩
            use a :: before, c, after, rfl, List.forall_mem_cons.2 ⟨⟨b, ha⟩, hbefore⟩, hc
          · rintro ⟨before, c, after, hl, hbefore, hc⟩
            cases before with
            | nil =>
                obtain ⟨rfl, _⟩ := List.cons.inj hl
                rw [ha] at hc
                cases hc
            | cons d before =>
                obtain ⟨_, rfl⟩ := List.cons.inj hl
                use before, c, after, rfl, (List.forall_mem_cons.1 hbefore).2, hc

/-- A traversal succeeds if all its steps do. -/
theorem exists_mapM_eq_ok {f : α → Except ε β} {l : List α} :
  (∃ r, l.mapM f = .ok r) ↔ ∀ a ∈ l, ∃ b, f a = .ok b
  := by
  induction l with
  | nil => simpa using ⟨[], rfl⟩
  | cons a l ih =>
      rw [List.forall_mem_cons, ← ih]
      constructor
      · rintro ⟨r, h⟩
        rw [List.mapM_cons] at h
        obtain ⟨b, ha, h⟩ := bind_eq_ok h
        obtain ⟨bs, hl, _⟩ := bind_eq_ok h
        use ⟨b, ha⟩, bs
      · rintro ⟨⟨b, ha⟩, bs, hl⟩
        use b :: bs
        rw [List.mapM_cons, ha, hl]
        rfl

end ServiceFlow
