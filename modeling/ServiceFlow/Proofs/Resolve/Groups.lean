import Mathlib.Data.List.Nodup
import ServiceFlow.Proofs.Resolve.Findings

/-!
# Groups of findings

An analysis keeps its findings in groups, one for each method.  A new finding goes to the group of
its method, unless the group has a finding of the same call: no group is lost or doubled, and every
call that was added keeps a finding.  The findings of different calls stand one after another.
-/

namespace ServiceFlow

/-! ### Lists of findings -/

namespace Finding

variable {l : List Finding} {f x : Finding}

theorem mem_insert_of_mem (h : x ∈ l) :
  x ∈ insert l f
  := by
  unfold insert
  split
  · apply h
  · apply List.mem_append_left _ h

theorem exists_call_mem_insert (l : List Finding) (f : Finding) :
  ∃ x ∈ insert l f, x.call = f.call
  := by
  unfold insert
  split
  · next hany => simpa using hany
  · use f
    simp

theorem nodup_insert (h : (l.map Finding.call).Nodup) :
  ((insert l f).map Finding.call).Nodup
  := by
  unfold insert
  split
  · apply h
  · next hnone =>
    rw [List.map_append, List.map_singleton, ← List.concat_eq_append]
    apply h.concat
    simpa using hnone

/-- The findings without those of a call that was found before. -/
def collect (found : List Finding) : List Finding := found.foldl insert []

theorem insert_append {l g : List Finding} {f : Finding} (h : ∀ x ∈ l, x.call ≠ f.call) :
  insert (l ++ g) f = l ++ insert g f
  := by
  have hany : l.any (fun x => x.call = f.call) = false := by simpa using h
  rw [insert, insert, List.any_append, hany, Bool.false_or]
  split
  · rfl
  · rw [List.append_assoc]

/-- Findings of other calls are appended. -/
theorem foldl_insert_append {l found : List Finding}
    (h : ∀ x ∈ l, ∀ f ∈ found, x.call ≠ f.call) (g : List Finding) :
  found.foldl insert (l ++ g) = l ++ found.foldl insert g
  := by
  induction found generalizing g with
  | nil => rfl
  | cons f found ih =>
      have hf : ∀ x ∈ l, x.call ≠ f.call := fun x hx => h x hx f List.mem_cons_self
      rw [List.foldl_cons, List.foldl_cons, insert_append hf, ih]
      intro x hx f' hf'
      apply h x hx f' (List.mem_cons_of_mem _ hf')

end Finding

/-! ### One more finding -/

namespace Resolution

/-- A group is empty, or the findings of a method in the list. -/
def IsGroup (l : List Resolution) (m : MethodSig) (group : List Finding) : Prop :=
  group = [] ∨ ⟨m, group⟩ ∈ l

variable {l : List Resolution} {m : MethodSig} {f : Finding} {r : Resolution}

/-- Only the group of the method changes. -/
theorem mem_insert (h : r ∈ insert m f l) :
  r ∈ l ∨ ∃ group, IsGroup l m group ∧ r = ⟨m, Finding.insert group f⟩
  := by
  induction l with
  | nil =>
      apply Or.inr
      use [], .inl rfl
      apply List.mem_singleton.1 h
  | cons q l ih =>
      rw [insert] at h
      split at h
      · next hq =>
        rcases List.mem_cons.1 h with rfl | h
        · apply Or.inr
          use q.findings
          subst hq
          use .inr List.mem_cons_self
        · apply Or.inl (List.mem_cons_of_mem _ h)
      · rcases List.mem_cons.1 h with rfl | h
        · apply Or.inl List.mem_cons_self
        · rcases ih h with h | ⟨group, hgroup, rfl⟩
          · apply Or.inl (List.mem_cons_of_mem _ h)
          · apply Or.inr
            use group, hgroup.imp_right (List.mem_cons_of_mem _)

theorem map_method_insert (m : MethodSig) (f : Finding) (l : List Resolution) :
  (insert m f l).map method =
    if m ∈ l.map method then l.map method else l.map method ++ [m]
  := by
  induction l with
  | nil => rfl
  | cons r l ih =>
      rw [insert]
      split
      · next hr => simp [hr]
      · next hr =>
        rw [List.map_cons, ih]
        split
        · next hm => simp [hm]
        · next hm =>
          have hcons : m ∉ (r :: l).map method := by simp_all [eq_comm]
          rw [if_neg hcons]
          rfl

/-- The call has a finding in the group of the method. -/
def Holds (l : List Resolution) (m : MethodSig) (c : LoadCall) : Prop :=
  ∃ r ∈ l, r.method = m ∧ ∃ x ∈ r.findings, x.call = c

theorem holds_insert (m : MethodSig) (f : Finding) (l : List Resolution) :
  Holds (insert m f l) m f.call
  := by
  induction l with
  | nil =>
      use ⟨m, [f]⟩, List.mem_cons_self, rfl, f, List.mem_cons_self
  | cons r l ih =>
      rw [insert]
      split
      · next hr =>
        use { r with findings := Finding.insert r.findings f }, List.mem_cons_self, hr
        apply Finding.exists_call_mem_insert
      · obtain ⟨q, hq, hholds⟩ := ih
        use q, List.mem_cons_of_mem _ hq

theorem Holds.insert {n : MethodSig} {c : LoadCall} (h : Holds l n c) (m : MethodSig)
    (f : Finding) :
  Holds (insert m f l) n c
  := by
  obtain ⟨r, hr, hn, x, hx, hc⟩ := h
  induction l with
  | nil => cases hr
  | cons q l ih =>
      rw [Resolution.insert]
      split
      · rcases List.mem_cons.1 hr with rfl | hr
        · use { r with findings := Finding.insert r.findings f }, List.mem_cons_self, hn, x
          use Finding.mem_insert_of_mem hx
        · use r, List.mem_cons_of_mem _ hr, hn, x
      · rcases List.mem_cons.1 hr with rfl | hr
        · use r, List.mem_cons_self, hn, x
        · obtain ⟨r', hr', hholds⟩ := ih hr
          use r', List.mem_cons_of_mem _ hr'

/-- Each method has one group, with findings for different calls of the method. -/
structure Grouped (l : List Resolution) : Prop where
  methods : (l.map method).Nodup
  nonempty : ∀ r ∈ l, r.findings ≠ []
  calls : ∀ r ∈ l, (r.findings.map Finding.call).Nodup
  sites : ∀ r ∈ l, ∀ x ∈ r.findings, x.call.method = r.method

theorem Grouped.insert (h : Grouped l) (hf : f.call.method = m) :
  Grouped (insert m f l)
  := by
  have hcalls : ∀ group, IsGroup l m group → (group.map Finding.call).Nodup := by
    rintro group (rfl | hgroup)
    · apply List.nodup_nil
    · apply h.calls _ hgroup
  have hsites : ∀ group, IsGroup l m group → ∀ x ∈ group, x.call.method = m := by
    rintro group (rfl | hgroup)
    · nofun
    · apply h.sites _ hgroup
  constructor
  · rw [map_method_insert]
    split
    · apply h.methods
    · next hm =>
      rw [← List.concat_eq_append]
      apply h.methods.concat hm
  · intro r hr
    rcases mem_insert hr with hr | ⟨group, _, rfl⟩
    · apply h.nonempty r hr
    · obtain ⟨x, hx, _⟩ := Finding.exists_call_mem_insert group f
      apply List.ne_nil_of_mem hx
  · intro r hr
    rcases mem_insert hr with hr | ⟨group, hgroup, rfl⟩
    · apply h.calls r hr
    · apply Finding.nodup_insert (hcalls group hgroup)
  · intro r hr x hx
    rcases mem_insert hr with hr | ⟨group, hgroup, rfl⟩
    · apply h.sites r hr x hx
    · rcases Finding.mem_insert hx with hx | rfl
      · apply hsites group hgroup x hx
      · apply hf

/-! ### Several findings for one method -/

/-- The groups when some findings were added to that of a method. -/
def insertAll (m : MethodSig) (found : List Finding) (l : List Resolution) : List Resolution :=
  found.foldl (fun l f => insert m f l) l

theorem mem_findings_insertAll {found : List Finding} {x : Finding}
    (h : x ∈ (insertAll m found l).flatMap findings) :
  x ∈ l.flatMap findings ∨ x ∈ found
  := by
  induction found generalizing l with
  | nil => apply Or.inl h
  | cons f found ih =>
      rcases ih h with h | h
      · obtain ⟨r, hr, hx⟩ := List.mem_flatMap.1 h
        rcases mem_insert hr with hr | ⟨group, hgroup, rfl⟩
        · apply Or.inl (List.mem_flatMap.2 ⟨r, hr, hx⟩)
        · rcases Finding.mem_insert hx with hx | rfl
          · rcases hgroup with rfl | hgroup
            · cases hx
            · apply Or.inl (List.mem_flatMap.2 ⟨_, hgroup, hx⟩)
          · apply Or.inr List.mem_cons_self
      · apply Or.inr (List.mem_cons_of_mem _ h)

theorem Holds.insertAll {n : MethodSig} {c : LoadCall} (h : Holds l n c) (m : MethodSig)
    (found : List Finding) :
  Holds (insertAll m found l) n c
  := by
  induction found generalizing l with
  | nil => apply h
  | cons f found ih => apply ih (h.insert m f)

theorem holds_insertAll {found : List Finding} (hf : f ∈ found) :
  Holds (insertAll m found l) m f.call
  := by
  induction found generalizing l with
  | nil => cases hf
  | cons g found ih =>
      rcases List.mem_cons.1 hf with rfl | hf
      · apply (holds_insert m f l).insertAll
      · apply ih hf

theorem Grouped.insertAll {found : List Finding} (h : Grouped l)
    (hfound : ∀ f ∈ found, f.call.method = m) :
  Grouped (insertAll m found l)
  := by
  induction found generalizing l with
  | nil => apply h
  | cons f found ih =>
      obtain ⟨hf, hfound⟩ := List.forall_mem_cons.1 hfound
      apply ih (h.insert hf) hfound

/-! ### The group of a method -/

/-- The findings in the group of a method. -/
def findingsOf (l : List Resolution) (m : MethodSig) : List Finding :=
  (l.find? (fun r => r.method = m)).elim [] findings

theorem findingsOf_cons_self (r : Resolution) (l : List Resolution) :
  findingsOf (r :: l) r.method = r.findings
  := by
  simp [findingsOf]

theorem findingsOf_cons_of_ne (h : r.method ≠ m) :
  findingsOf (r :: l) m = findingsOf l m
  := by
  simp [findingsOf, h]

theorem findingsOf_insert (m : MethodSig) (f : Finding) (l : List Resolution) (n : MethodSig) :
  findingsOf (insert m f l) n = if n = m then Finding.insert (findingsOf l m) f else findingsOf l n
  := by
  induction l with
  | nil =>
      split
      · next h => simp [h, insert, findingsOf, Finding.insert]
      · next h => simp [insert, findingsOf, Ne.symm h]
  | cons r l ih =>
      rw [insert]
      split
      · next hr =>
        subst hr
        by_cases hn : n = r.method
        · rw [if_pos hn, hn, findingsOf_cons_self, findingsOf_cons_self]
        · simp [findingsOf, hn, Ne.symm hn]
      · next hr =>
        by_cases hn : r.method = n
        · subst hn
          rw [if_neg hr, findingsOf_cons_self, findingsOf_cons_self]
        · rw [findingsOf_cons_of_ne hn, findingsOf_cons_of_ne hn, findingsOf_cons_of_ne hr, ih]

theorem findingsOf_insertAll (m : MethodSig) (found : List Finding) (l : List Resolution)
    (n : MethodSig) :
  findingsOf (insertAll m found l) n =
    if n = m then found.foldl Finding.insert (findingsOf l m) else findingsOf l n
  := by
  induction found generalizing l with
  | nil =>
      split
      · next h =>
        rw [h]
        rfl
      · rfl
  | cons f found ih =>
      change findingsOf (insertAll m found (insert m f l)) n = _
      rw [ih, findingsOf_insert, findingsOf_insert, if_pos rfl, List.foldl_cons]
      split <;> rfl

theorem map_method_insertAll (m : MethodSig) (found : List Finding) (l : List Resolution) :
  (insertAll m found l).map method =
    if found = [] ∨ m ∈ l.map method then l.map method else l.map method ++ [m]
  := by
  induction found generalizing l with
  | nil => simp [insertAll]
  | cons f found ih =>
      change (insertAll m found (insert m f l)).map method = _
      rw [ih, map_method_insert]
      by_cases hm : m ∈ l.map method <;> simp [hm]

theorem mem_findings_of_mem_findingsOf {x : Finding} (h : x ∈ findingsOf l m) :
  x ∈ l.flatMap findings
  := by
  unfold findingsOf at h
  cases hr : l.find? (fun r => r.method = m) with
  | none => simp [hr] at h
  | some r =>
      rw [hr] at h
      apply List.mem_flatMap.2 ⟨r, List.mem_of_find?_eq_some hr, h⟩

/-- Groups are what their methods and the findings of these say. -/
theorem eq_map_findingsOf (h : (l.map method).Nodup) :
  l = (l.map method).map (fun m => ⟨m, findingsOf l m⟩)
  := by
  induction l with
  | nil => rfl
  | cons r l ih =>
      obtain ⟨hr, hl⟩ := List.nodup_cons.1 h
      rw [List.map_cons, List.map_cons, findingsOf_cons_self]
      congr 1
      have hrest : (l.map method).map (fun m => (⟨m, findingsOf (r :: l) m⟩ : Resolution)) =
          (l.map method).map (fun m => ⟨m, findingsOf l m⟩) := by
        apply List.map_congr_left
        intro m hm
        rw [findingsOf_cons_of_ne]
        rintro rfl
        apply hr hm
      rw [hrest]
      apply ih hl

/-- The groups that the findings of one call make. -/
theorem insertAll_nil (m : MethodSig) (found : List Finding) :
  insertAll m found [] = if found = [] then [] else [⟨m, Finding.collect found⟩]
  := by
  have hmethods : (insertAll m found []).map method = if found = [] then [] else [m] := by
    simp [map_method_insertAll]
  have hnodup : ((insertAll m found []).map method).Nodup := by
    rw [hmethods]
    split <;> simp
  rw [eq_map_findingsOf hnodup, hmethods]
  split
  · rfl
  · rw [List.map_singleton, findingsOf_insertAll, if_pos rfl]
    rfl

end Resolution

end ServiceFlow
