import ServiceFlow.Proofs.Yaml.Document
import ServiceFlow.Yaml.Decode

/-!
# Decoding documents

What is written for a text, a number, a truth value or a record is decoded as it.  The members of a
record that is decoded are stated in the document, or they are left out.
-/

namespace ServiceFlow.Yaml

/-! ### Words -/

theorem toList_toString (n : Nat) :
  (toString n).toList = Nat.toDigits 10 n
  := by
  simp [Nat.repr_eq_ofList_toDigits]

theorem isDigit_of_mem_toString {n : Nat} {c : Char} (h : c ∈ (toString n).toList) :
  c.isDigit
  := by
  rw [toList_toString] at h
  apply Nat.isDigit_of_mem_toDigits (by decide) (by decide) h

/-- Decimal digits have no mark of a base. -/
theorem marked?_of_digits {cs : List Char} (h : ∀ c ∈ cs, c.isDigit) :
  marked? cs = none
  := by
  unfold marked?
  split
  · cases h 'x' (by simp)
  · cases h 'o' (by simp)
  · cases h 'b' (by simp)
  · rfl

theorem natural?_toString (n : Nat) :
  natural? (toString n) = some n
  := by
  have hdigits : ∀ c ∈ (toString n).toList, c.isDigit := fun c hc => isDigit_of_mem_toString hc
  have hzero : hasLeadingZero (toString n).toList = false := by
    rw [toList_toString]
    rcases Nat.eq_zero_or_pos n with rfl | hn
    · rfl
    · simp [hasLeadingZero, Text.head?_toDigits_ne hn]
  have hunsigned : unsigned? (toString n).toList = some n := by
    rw [unsigned?, hzero, marked?_of_digits hdigits, toList_toString, Text.number?_toDigits]
    rfl
  rw [natural?, ← hunsigned]
  split
  · next cs hcs =>
      rw [hcs] at hdigits
      cases hdigits '+' List.mem_cons_self
  · rfl

/-- A number does not say that there is nothing. -/
theorem not_isNull_of_natural? {s : String} {n : Nat} (h : natural? s = some n) :
  (s.isEmpty || isNull s) = false
  := by
  have hne : ∀ s' : String, natural? s' = none → s ≠ s' := by
    rintro s' hs' rfl
    rw [h] at hs'
    cases hs'
  simp [isNull, hne "" rfl, hne "~" rfl, hne "null" rfl, hne "Null" rfl, hne "NULL" rfl]

/-! ### Styles -/

theorem ScalarStyle.fits_ofText (s : String) :
  (ScalarStyle.ofText s).Fits s.toList
  := by
  have hne : s.isEmpty = false → s.toList ≠ [] := by
    intro hs hnil
    rw [String.toList_eq_nil_iff.1 hnil] at hs
    cases hs
  rw [ScalarStyle.ofText]
  split
  · next hlines =>
      split
      · next hallowed =>
          refine ⟨hallowed, ?_⟩
          intro hnil
          rw [hnil] at hlines
          cases hlines
      · trivial
  · next hlines =>
      split
      · next hplain =>
          simp only [isAmbiguous, Bool.and_eq_true, Bool.not_eq_true',
            Bool.or_eq_false_iff] at hplain
          apply isPlain_of_plainAllowed (hne hplain.1.1.1.1) hplain.2
      · split
        · next hsingle =>
            apply singleText_of_singleQuotedAllowed hsingle (Bool.not_eq_true _ ▸ hlines)
        · trivial

namespace Document

theorem readable_text (s : String) :
  (text s).Readable
  := .scalar (ScalarStyle.fits_ofText s)

theorem readable_name {s : String} (hne : s.toList ≠ []) (h : ∀ c ∈ s.toList, IsNameChar c) :
  (scalar .plain s).Readable
  := .scalar (isPlain_of_name hne h)

theorem readable_nat (n : Nat) :
  (nat n).Readable
  := by
  apply readable_name
  · rw [toList_toString]
    apply Nat.toDigits_ne_nil
  · intro c hc
    rw [IsNameChar, Char.isAlphanum, isDigit_of_mem_toString hc, Bool.or_true]
    exact .inl rfl

theorem readable_bool (b : Bool) :
  (bool b).Readable
  := by
  cases b with
  | false => apply readable_name <;> simp [IsNameChar]
  | true => apply readable_name <;> simp [IsNameChar]

theorem readable_map {members : List (String × Document)} (hne : members ≠ [])
    (hkeys : (members.map Prod.fst).all (fun key => Lexer.isKey key.toList))
    (hvalues : ∀ m ∈ members, m.2.Readable) :
  (map members).Readable
  := by
  refine .map hne ?_ hvalues
  intro m hm
  apply Lexer.isKey_iff.1 (List.all_eq_true.1 hkeys m.1 (List.mem_map.2 ⟨m, hm, rfl⟩))

end Document

/-! ### Decoding what is written -/

namespace Tree

theorem members?_toTree (members : List (String × Document)) :
  (Document.map members).toTree.members? = some (members.map (fun m => (m.1, m.2.toTree)))
  := by
  have hentries (t : Tree) (hanchors : t.anchors = {}) :
      (Document.memberNodes members).mapM t.entry? =
        some (members.map (fun m => (m.1, m.2.toTree))) := by
    induction members with
    | nil => rfl
    | cons m members ih =>
        obtain ⟨key, d⟩ := m
        cases d with
        | scalar style text =>
            simp [Document.memberNodes, Document.toNode, entry?, at?, text?, ih, hanchors,
              Document.toTree]
        | map members' =>
            simp [Document.memberNodes, Document.toNode, entry?, at?, text?, ih, hanchors,
              Document.toTree]
  apply hentries _ rfl

theorem nat?_nat {n size : Nat} (h : n < size) :
  (Document.nat n).toTree.nat? size = some n
  := by
  have hword : (Document.nat n).toTree.word? "int" = some (toString n) := rfl
  rw [nat?, hword, Option.bind_some, natural?_toString, Option.filter_some]
  apply if_pos (by simpa using h)

theorem uint64?_uint64 (n : UInt64) :
  (Document.uint64 n).toTree.uint64? = some n
  := by
  rw [uint64?, Document.uint64, nat?_nat n.toNat_lt, Option.map_some, UInt64.ofNat_toNat]

theorem uint32?_nat (n : UInt32) :
  (Document.nat n.toNat).toTree.uint32? = some n
  := by
  rw [uint32?, nat?_nat n.toNat_lt, Option.map_some, UInt32.ofNat_toNat]

variable {α : Type} {read : Tree → Option α} {key : String} {known : List String} {t : Tree}
  {ms : List (String × Tree)}

theorem optional?_uint64 (n : UInt64) :
  optional? uint64? (Document.uint64 n).toTree = some (some n)
  := by
  have hnode : (Document.uint64 n).toTree.node = .scalar .plain none (toString n.toNat) := rfl
  rw [optional?, hnode]
  simp only [not_isNull_of_natural? (natural?_toString n.toNat), Bool.false_eq_true, if_false]
  rw [uint64?_uint64, Option.map_some]

theorem optional?_bool (b : Bool) :
  optional? bool? (Document.bool b).toTree = some (some b)
  := by
  cases b <;> rfl

/-! ### Records -/

theorem valuesOf_eq_nil (h : key ∉ ms.map Prod.fst) :
  valuesOf key ms = []
  := by
  rw [valuesOf, List.map_eq_nil_iff, List.filter_eq_nil_iff]
  intro m hm hkey
  rw [decide_eq_true_eq] at hkey
  exact h (List.mem_map.2 ⟨m, hm, hkey⟩)

/-- Where no key is repeated, a member is the only one with its key. -/
theorem valuesOf_of_mem (hnodup : (ms.map Prod.fst).Nodup) (h : (key, t) ∈ ms) :
  valuesOf key ms = [t]
  := by
  induction ms with
  | nil => cases h
  | cons m ms ih =>
      obtain ⟨hm, hnodup⟩ := List.nodup_cons.1 hnodup
      rcases List.mem_cons.1 h with rfl | h
      · rw [valuesOf, List.filter_cons_of_pos (by simp), List.map_cons]
        congr 1
        apply valuesOf_eq_nil hm
      · have hne : m.1 ≠ key := by
          rintro rfl
          exact hm (List.mem_map.2 ⟨_, h, rfl⟩)
        rw [valuesOf, List.filter_cons_of_neg (by simpa using hne)]
        apply ih hnodup h

theorem openRecord?_eq (hms : t.members? = some ms) (hnodup : (ms.map Prod.fst).Nodup) :
  t.openRecord? known = some ms
  := by
  have hunique : ∀ key ∈ known, (valuesOf key ms).length ≤ 1 := by
    intro key _
    by_cases hkey : key ∈ ms.map Prod.fst
    · obtain ⟨⟨_, v⟩, hv, rfl⟩ := List.mem_map.1 hkey
      rw [valuesOf_of_mem hnodup hv]
      apply Nat.le_refl
    · rw [valuesOf_eq_nil hkey]
      apply Nat.zero_le
  rw [openRecord?, hms, Option.filter_some, if_pos (by simpa using hunique)]

/-- The members of a mapping, each as it is read back. -/
def memberTrees (members : List (String × Document)) : List (String × Tree) :=
  members.map (fun m => (m.1, m.2.toTree))

variable {members : List (String × Document)} {d : Document} {a : α}

theorem map_fst_memberTrees (members : List (String × Document)) :
  (memberTrees members).map Prod.fst = members.map Prod.fst
  := by
  rw [memberTrees, List.map_map]
  rfl

theorem openRecord?_toTree (hnodup : (members.map Prod.fst).Nodup) :
  (Document.map members).toTree.openRecord? known = some (memberTrees members)
  := by
  apply openRecord?_eq (members?_toTree members)
  rw [← memberTrees, map_fst_memberTrees]
  apply hnodup

theorem record?_toTree (hnodup : (members.map Prod.fst).Nodup)
    (hknown : ∀ key ∈ members.map Prod.fst, key ∈ known) :
  (Document.map members).toTree.record? known = some (memberTrees members)
  := by
  have hall : ∀ m ∈ memberTrees members, m.1 ∈ known := by
    intro m hm
    apply hknown m.1
    rw [← map_fst_memberTrees]
    exact List.mem_map.2 ⟨m, hm, rfl⟩
  rw [record?, openRecord?_toTree hnodup, Option.filter_some, if_pos (by simpa using hall)]

theorem member?_of_mem (hnodup : (members.map Prod.fst).Nodup) (h : (key, d) ∈ members)
    (hread : read d.toTree = some a) :
  member? key read (memberTrees members) = some (some a)
  := by
  have hvalues : valuesOf key (memberTrees members) = [d.toTree] := by
    apply valuesOf_of_mem
    · rw [map_fst_memberTrees]
      apply hnodup
    · exact List.mem_map.2 ⟨(key, d), h, rfl⟩
  rw [member?, hvalues]
  simp [hread]

theorem optionalMember?_of_mem (hnodup : (members.map Prod.fst).Nodup) (h : (key, d) ∈ members)
    (hread : optional? read d.toTree = some (some a)) :
  optionalMember? key read (memberTrees members) = some (some a)
  := by
  rw [optionalMember?, member?_of_mem hnodup h hread]
  rfl

/-! ### Members of a document -/

/-- The member with the key, if there is one. -/
def given? (key : String) (t : Tree) : Option Tree :=
  t.members?.bind (fun ms => (valuesOf key ms).head?)

/-- The member with the key, if there is one that says something. -/
def stated? (key : String) (t : Tree) : Option Tree :=
  (t.given? key).bind (fun v => (v.optional? some).join)

/-- The value is decoded from its source, or there is none and the value is the default. -/
def Settles (source : Option Tree) (read : Tree → Option α) (default a : α) : Prop :=
  source.elim (a = default) (fun v => read v = some a)

variable {o : Option α}

/-- A member is left out, or it is decoded. -/
theorem member?_eq_some (hms : t.members? = some ms) (h : member? key read ms = some o) :
  (t.given? key = none ∧ o = none) ∨ ∃ v a, t.given? key = some v ∧ read v = some a ∧ o = some a
  := by
  rw [given?, hms, Option.bind_some]
  rw [member?] at h
  cases hvalues : valuesOf key ms with
  | nil =>
      rw [hvalues] at h
      exact .inl ⟨rfl, (Option.some.inj h).symm⟩
  | cons v vs =>
      rw [hvalues] at h
      obtain ⟨a, ha, rfl⟩ := Option.map_eq_some_iff.1 h
      exact .inr ⟨v, a, rfl, ha, rfl⟩

/-- A node says that there is nothing, or it is decoded. -/
theorem optional?_eq_some (h : optional? read t = some o) :
  (t.optional? some = some none ∧ o = none) ∨
    ∃ a, t.optional? some = some (some t) ∧ read t = some a ∧ o = some a
  := by
  have hdecoded (h : (read t).map some = some o) (hsome : t.optional? some = some (some t)) :
      ∃ a, t.optional? some = some (some t) ∧ read t = some a ∧ o = some a := by
    obtain ⟨a, ha, rfl⟩ := Option.map_eq_some_iff.1 h
    exact ⟨a, hsome, ha, rfl⟩
  rw [optional?] at h
  split at h
  · next text hnode =>
      split at h
      · next hnull => exact .inl ⟨by simp [optional?, hnode, hnull], (Option.some.inj h).symm⟩
      · next hnull => exact .inr (hdecoded h (by simp [optional?, hnode, hnull]))
  · next tag text hnode =>
      split at h
      · next htag =>
          split at h
          · next hnull =>
              exact .inl ⟨by simp [optional?, hnode, htag, hnull], (Option.some.inj h).symm⟩
          · cases h
      · next htag => exact .inr (hdecoded h (by simp [optional?, hnode, htag]))
  · next hplain htagged =>
      apply Or.inr (hdecoded h _)
      rw [optional?]
      split
      · next hnode => exact absurd hnode (hplain _)
      · next hnode => exact absurd hnode (htagged _ _)
      · rfl

/-- A member is not stated, or it is decoded. -/
theorem optionalMember?_eq_some (hms : t.members? = some ms)
    (h : optionalMember? key read ms = some o) :
  (t.stated? key = none ∧ o = none) ∨ ∃ v a, t.stated? key = some v ∧ read v = some a ∧ o = some a
  := by
  obtain ⟨o', hmember, rfl⟩ := Option.map_eq_some_iff.1 h
  rw [stated?]
  rcases member?_eq_some hms hmember with ⟨hgiven, rfl⟩ | ⟨v, o, hgiven, ho, rfl⟩
  · rw [hgiven]
    exact .inl ⟨rfl, rfl⟩
  · rw [hgiven, Option.bind_some, Option.join_some]
    rcases optional?_eq_some ho with ⟨hnothing, rfl⟩ | ⟨a, hsome, ha, rfl⟩
    · rw [hnothing]
      exact .inl ⟨rfl, rfl⟩
    · rw [hsome]
      exact .inr ⟨v, a, rfl, ha, rfl⟩

theorem settles_of_eq_some {source : Option Tree}
    (h : (source = none ∧ o = none) ∨ ∃ v a, source = some v ∧ read v = some a ∧ o = some a)
    (default : α) :
  Settles source read default (o.getD default)
  := by
  rcases h with ⟨rfl, rfl⟩ | ⟨v, a, rfl, ha, rfl⟩
  · rfl
  · exact ha

theorem settles_member? (hms : t.members? = some ms) (h : member? key read ms = some o)
    (default : α) :
  Settles (t.given? key) read default (o.getD default)
  := settles_of_eq_some (member?_eq_some hms h) default

theorem settles_optionalMember? (hms : t.members? = some ms)
    (h : optionalMember? key read ms = some o) (default : α) :
  Settles (t.stated? key) read default (o.getD default)
  := settles_of_eq_some (optionalMember?_eq_some hms h) default

theorem members?_of_openRecord? (h : t.openRecord? known = some ms) :
  t.members? = some ms
  := (Option.filter_eq_some_iff.1 h).1

theorem members?_of_record? (h : t.record? known = some ms) :
  t.members? = some ms
  := members?_of_openRecord? (Option.filter_eq_some_iff.1 h).1

end Tree

end ServiceFlow.Yaml
