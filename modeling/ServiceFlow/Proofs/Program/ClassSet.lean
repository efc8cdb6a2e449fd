import Mathlib.Data.List.Forall2
import ServiceFlow.Proofs.Json.Text
import ServiceFlow.Proofs.Program.Insertion

/-!
# Class sets

The text of a class set is read as the insertions of its documents, in their order.  It is read as a
whole: a set that is an array of documents with names still fails if one of them nests too deeply,
has a number too large for a double or a string with an unpaired surrogate, though each document
alone would fail the look-ups of its own class at most.
-/

namespace ServiceFlow

namespace Json

/-- The last member `name` of a document is the given string. -/
inductive GivesName : Json → String → Prop where
  | intro {before after : List (String × Json)} {name : String}
      (hlast : ∀ m ∈ after, m.1 ≠ "name") :
      GivesName (.obj (before ++ ("name", .str name) :: after)) name

/-- Every part of the document denotes something, and there is a level left for the array around
it. -/
def IsReadable (j : Json) : Prop := j.isSound ∧ j.depth < maxDepth

theorem itemsSound_iff {items : List Json} :
  itemsSound items ↔ ∀ j ∈ items, j.isSound
  := by
  induction items with
  | nil => simp [itemsSound]
  | cons j items ih => simp [itemsSound, ih]

theorem itemsDepth_lt_iff {items : List Json} {n : Nat} (hn : 0 < n) :
  itemsDepth items < n ↔ ∀ j ∈ items, j.depth < n
  := by
  induction items with
  | nil => simpa [itemsDepth] using hn
  | cons j items ih => simp [itemsDepth, ih]

/-- An array can be read if all its items can. -/
theorem forall_isReadable_iff {items : List Json} :
  (∀ j ∈ items, j.IsReadable) ↔ (Json.arr items).isSound ∧ (Json.arr items).depth ≤ maxDepth
  := by
  rw [isSound, depth, itemsSound_iff, Nat.succ_le_iff, itemsDepth_lt_iff (by decide), ← forall₂_and]
  rfl

theorem lastMembersItems_eq_map (items : List Json) :
  lastMembersItems items = items.map lastMembers
  := by
  induction items with
  | nil => rfl
  | cons j items ih => rw [lastMembersItems, ih, List.map_cons]

theorem find?_addMember (key k : String) (j : Json) (members : List (String × Json)) :
  (addMember k j members).find? (fun m => m.1 = key) =
    (members.find? (fun m => m.1 = key)).or (if k = key then some (k, j) else none)
  := by
  rw [addMember, ← List.isSome_find?]
  by_cases hk : k = key
  · subst hk
    cases h : members.find? (fun m => m.1 = k) with
    | none => simp
    | some m => simpa using h
  · split <;> simp [hk]

/-- Of repeated members the last one counts. -/
theorem member?_lastMembers (members : List (String × Json)) (key : String) :
  (lastMembers (.obj members)).member? key =
    (members.reverse.find? (fun m => m.1 = key)).map (fun m => m.2.lastMembers)
  := by
  rw [lastMembers, member?]
  induction members with
  | nil => rfl
  | cons m members ih =>
      obtain ⟨k, j⟩ := m
      rw [lastMembersMembers, find?_addMember, List.reverse_cons, List.find?_append,
        Option.map_or, Option.map_or, ih]
      by_cases hk : k = key <;> simp [hk]

theorem string?_lastMembers (j : Json) :
  j.lastMembers.string? = j.string?
  := by
  cases j <;> rfl

theorem string?_eq_some_iff {j : Json} {s : String} :
  j.string? = some s ↔ j = .str s
  := by
  cases j <;> simp [string?]

theorem givesName_iff {j : Json} {name : String} :
  j.GivesName name ↔ (j.lastMembers.member? "name").bind string? = some name
  := by
  constructor
  · rintro (@⟨before, after, _, hlast⟩)
    have hfind : (before ++ ("name", .str name) :: after).reverse.find? (fun m => m.1 = "name") =
        some ("name", .str name) := by
      rw [List.find?_eq_some_iff_append]
      refine ⟨by simp, after.reverse, before.reverse, by simp, ?_⟩
      intro m hm
      simpa using hlast m (List.mem_reverse.1 hm)
    rw [member?_lastMembers, hfind]
    rfl
  · intro h
    obtain ⟨value, hvalue, hname⟩ := Option.bind_eq_some_iff.1 h
    cases j with
    | obj members =>
        rw [member?_lastMembers] at hvalue
        obtain ⟨⟨key, value⟩, hfind, rfl⟩ := Option.map_eq_some_iff.1 hvalue
        rw [string?_lastMembers, string?_eq_some_iff] at hname
        obtain ⟨hkey, after, before, hmembers, hlast⟩ := List.find?_eq_some_iff_append.1 hfind
        obtain rfl := of_decide_eq_true hkey
        obtain rfl := hname
        obtain rfl : members = before.reverse ++ ("name", .str name) :: after.reverse := by
          rw [← List.reverse_reverse members, hmembers]
          simp
        apply GivesName.intro
        intro m hm
        simpa using hlast m (List.mem_reverse.1 hm)
    | _ => cases hvalue

end Json

namespace ClassPool

/-- The insertion of a document under the name it gives. -/
def Inserts (j : Json) (i : Insertion) : Prop :=
  ∃ name, j.GivesName name ∧ i = .document ⟨name⟩ j.lastMembers

/-- What becomes of the text of a class set. -/
inductive ReadsSet (s : String) : Except ClassSetError ClassPool → Prop where
  | notAnArray (other : ∀ documents, ¬Json.Spells s.toList (.arr documents)) :
      ReadsSet s (.error .notAnArray)
  /-- One document that cannot be read fails the set, with the error of a text that is no array. -/
  | unreadable {documents : List Json} {j : Json} (array : Json.Spells s.toList (.arr documents))
      (mem : j ∈ documents) (fault : ¬j.IsReadable) : ReadsSet s (.error .notAnArray)
  /-- The first document without name is told by its index. -/
  | unnamed {before after : List Json} {j : Json}
      (array : Json.Spells s.toList (.arr (before ++ j :: after)))
      (readable : ∀ k ∈ before ++ j :: after, k.IsReadable)
      (named : ∀ k ∈ before, ∃ name, k.GivesName name) (nameless : ∀ name, ¬j.GivesName name) :
      ReadsSet s (.error (.unnamed before.length))
  | named {documents : List Json} {l : List Insertion}
      (array : Json.Spells s.toList (.arr documents)) (readable : ∀ k ∈ documents, k.IsReadable)
      (inserted : List.Forall₂ Inserts documents l) : ReadsSet s (.ok (ofInsertions l))

theorem insertDocuments_cons {j : Json} {name : String} (h : j.GivesName name) (p : ClassPool)
    (index : Nat) (documents : List Json) :
  p.insertDocuments index (j.lastMembers :: documents) =
    (p.take (.document ⟨name⟩ j.lastMembers)).insertDocuments (index + 1) documents
  := by
  rw [insertDocuments, Json.givesName_iff.1 h]
  rfl

/-- Documents with names are inserted. -/
theorem insertDocuments_of_named {documents : List Json} {l : List Insertion}
    (h : List.Forall₂ Inserts documents l) (p : ClassPool) (index : Nat) :
  p.insertDocuments index (documents.map Json.lastMembers) = .ok (l.foldl take p)
  := by
  induction h generalizing p index with
  | nil => rfl
  | cons hj _ ih =>
      obtain ⟨name, hname, rfl⟩ := hj
      rw [List.map_cons, insertDocuments_cons hname, ih, List.foldl_cons]

/-- The first document without name stops the insertions. -/
theorem insertDocuments_of_unnamed {before after : List Json} {j : Json}
    (hnamed : ∀ k ∈ before, ∃ name, k.GivesName name) (hnameless : ∀ name, ¬j.GivesName name)
    (p : ClassPool) (index : Nat) :
  p.insertDocuments index ((before ++ j :: after).map Json.lastMembers) =
    .error (.unnamed (index + before.length))
  := by
  induction before generalizing p index with
  | nil =>
      have hnone : (j.lastMembers.member? "name").bind Json.string? = none := by
        rw [Option.eq_none_iff_forall_ne_some]
        intro name hname
        apply hnameless name (Json.givesName_iff.2 hname)
      rw [List.nil_append, List.map_cons, insertDocuments, hnone]
      rfl
  | cons k before ih =>
      obtain ⟨hk, hbefore⟩ := List.forall_mem_cons.1 hnamed
      obtain ⟨name, hname⟩ := hk
      rw [List.cons_append, List.map_cons, insertDocuments_cons hname, ih hbefore,
        List.length_cons, Nat.add_right_comm, Nat.add_assoc]

/-- An array of documents that can all be read is read as these documents. -/
theorem ofJsonText_of_readable {s : String} {documents : List Json}
    (harray : Json.Spells s.toList (.arr documents)) (hreadable : ∀ k ∈ documents, k.IsReadable) :
  ofJsonText s = empty.insertDocuments 0 (documents.map Json.lastMembers)
  := by
  obtain ⟨hsound, hdepth⟩ := Json.forall_isReadable_iff.1 hreadable
  have hparse : Json.parseSound? s = some (.arr (documents.map Json.lastMembers)) := by
    rw [Json.parseSound?_eq_some_iff]
    refine ⟨.arr documents, harray, hsound, hdepth, ?_⟩
    rw [Json.lastMembers, Json.lastMembersItems_eq_map]
  rw [ofJsonText, hparse]
  rfl

/-- Any other text is said to be no array. -/
theorem ofJsonText_of_not_readable {s : String}
    (h : ∀ documents, Json.Spells s.toList (.arr documents) → ¬∀ k ∈ documents, k.IsReadable) :
  ofJsonText s = .error .notAnArray
  := by
  rw [ofJsonText]
  cases hparse : Json.parseSound? s with
  | none => rfl
  | some j =>
      obtain ⟨j', hspells, hsound, hdepth, rfl⟩ := Json.parseSound?_eq_some_iff.1 hparse
      cases j' with
      | arr documents =>
          cases h documents hspells (Json.forall_isReadable_iff.2 ⟨hsound, hdepth⟩)
      | _ => rfl

theorem ReadsSet.ofJsonText_eq {s : String} {r : Except ClassSetError ClassPool}
    (h : ReadsSet s r) :
  ofJsonText s = r
  := by
  cases h with
  | notAnArray other =>
      apply ofJsonText_of_not_readable
      intro documents hspells
      cases other documents hspells
  | unreadable array mem fault =>
      apply ofJsonText_of_not_readable
      intro documents hspells hreadable
      cases array.unique hspells
      apply fault (hreadable _ mem)
  | unnamed array readable named nameless =>
      rw [ofJsonText_of_readable array readable, insertDocuments_of_unnamed named nameless,
        Nat.zero_add]
  | named array readable inserted =>
      rw [ofJsonText_of_readable array readable, insertDocuments_of_named inserted]
      rfl

/-- Either all documents have names, or there is a first one that has none. -/
theorem exists_inserts_or_nameless (documents : List Json) :
  (∃ l, List.Forall₂ Inserts documents l) ∨
  ∃ before j after, documents = before ++ j :: after ∧
    (∀ k ∈ before, ∃ name, k.GivesName name) ∧ ∀ name, ¬j.GivesName name
  := by
  induction documents with
  | nil => exact .inl ⟨[], .nil⟩
  | cons j documents ih =>
      by_cases hj : ∃ name, j.GivesName name
      · rcases ih with ⟨l, hl⟩ | ⟨before, k, after, rfl, hbefore, hk⟩
        · obtain ⟨name, hname⟩ := hj
          exact .inl ⟨_, .cons ⟨name, hname, rfl⟩ hl⟩
        · exact .inr ⟨j :: before, k, after, rfl, List.forall_mem_cons.2 ⟨hj, hbefore⟩, hk⟩
      · exact .inr ⟨[], j, documents, rfl, by simp, not_exists.1 hj⟩

theorem exists_readsSet (s : String) :
  ∃ r, ReadsSet s r
  := by
  by_cases harray : ∃ documents, Json.Spells s.toList (.arr documents)
  · obtain ⟨documents, harray⟩ := harray
    by_cases hreadable : ∀ j ∈ documents, j.IsReadable
    · rcases exists_inserts_or_nameless documents with
        ⟨l, hl⟩ | ⟨before, j, after, rfl, hbefore, hj⟩
      · exact ⟨_, .named harray hreadable hl⟩
      · exact ⟨_, .unnamed harray hreadable hbefore hj⟩
    · obtain ⟨j, hj⟩ := not_forall.1 hreadable
      obtain ⟨hmem, hfault⟩ := Classical.not_imp.1 hj
      exact ⟨_, .unreadable harray hmem hfault⟩
  · exact ⟨_, .notAnArray (not_exists.1 harray)⟩

theorem ofJsonText_eq_iff {s : String} {r : Except ClassSetError ClassPool} :
  ofJsonText s = r ↔ ReadsSet s r
  := by
  constructor
  · rintro rfl
    obtain ⟨r, hr⟩ := exists_readsSet s
    rw [hr.ofJsonText_eq]
    apply hr
  · apply ReadsSet.ofJsonText_eq

/-- A pool keeps the last insertion under each name, and the names in the order of their first
insertions.  What changes under one name changes nothing under the others.  A view can be had
exactly if all its names load, has each of them once, and fails otherwise with the first failure.
A class set is read as the insertions of its documents exactly if it is an array of documents all
of which can be read and have names; the first one without name is told, but one that cannot be read
fails the set as if it were no array. -/
theorem keeps_last_insertions (l : List Insertion) (p : ClassPool) (names : List ClassName)
    (s : String) :
  (ofInsertions l).Records l ∧
  (∀ {l' : List Insertion} {n : ClassName},
    l.filter (fun i => i.name ≠ n) = l'.filter (fun i => i.name ≠ n) →
    ∀ c ≠ n, (ofInsertions l).load c = (ofInsertions l').load c) ∧
  ((∃ v, p.view names = .ok v) ↔ ∀ c ∈ names, ∃ d, p.load c = .ok d) ∧
  (∀ e, p.view names = .error e ↔ ∃ before c after, names = before ++ c :: after ∧
    (∀ b ∈ before, ∃ d, p.load b = .ok d) ∧ p.load c = .error e) ∧
  (∀ v, p.view names = .ok v → v.classes.map ClassDecl.name = names.eraseDups ∧
    ∀ d ∈ v.classes, p.load d.name = .ok d) ∧
  (∀ r, ofJsonText s = r ↔ ReadsSet s r)
  := by
  refine ⟨records_ofInsertions l, ?_, exists_view_eq_ok_iff, fun e => view_eq_error_iff, ?_,
    fun r => ofJsonText_eq_iff⟩
  · intro l' n h c hc
    apply load_ofInsertions_congr h hc
  · intro v h
    apply classes_of_view h

end ClassPool

namespace Reinserted

/-! A class that is inserted twice, and one whose document is at fault between them. -/

def first : ClassName := ⟨"A"⟩
def second : ClassName := ⟨"B"⟩

def decl : ClassDecl := ⟨first, some .object, [], none, []⟩

def history (j : Json) : List Insertion :=
  [.document first (.obj [("name", .str "A")]), .document second j, .decl decl]

def broken : Json := .obj [("name", .str "B"), ("methods", .str "none")]

def pool : ClassPool := .ofInsertions (history broken)

/-- A class set whose second document has no name. -/
def classSet : Json := .arr [.obj [("name", .str "A")], .obj []]

theorem readsSet_classSet :
  ClassPool.ReadsSet classSet.compress (.error (.unnamed 1))
  := by
  have hexact : classSet.Exact := by
    apply Json.Exact.arr
    simp only [List.forall_mem_cons]
    exact ⟨.obj (by simpa using .str "A"), .obj nofun, nofun⟩
  have hreadable : ∀ k ∈ [.obj [("name", .str "A")], .obj []], Json.IsReadable k := by
    simp [Json.IsReadable, Json.isSound, Json.membersSound, Json.depth, Json.membersDepth,
      Json.maxDepth]
  refine @ClassPool.ReadsSet.unnamed _ [.obj [("name", .str "A")]] [] (.obj []) hexact.spells
    hreadable ?_ ?_
  · rw [List.forall_mem_singleton]
    exact ⟨"A", @Json.GivesName.intro [] [] "A" nofun⟩
  · intro name hname
    cases Json.givesName_iff.1 hname

theorem keeps_second_insertion :
  pool.names = [first, second] ∧ pool.load first = .ok decl ∧
  pool.load second = .error (.malformed second .undecodable) ∧
  pool.load ⟨"C"⟩ = .error (.classNotFound ⟨"C"⟩) ∧
  (ClassPool.ofInsertions (history .null)).load first = .ok decl ∧
  pool.view [first, second] = .error (.malformed second .undecodable) ∧
  (∃ v, pool.view [first, first] = .ok v ∧ v.classes.map ClassDecl.name = [first]) ∧
  ClassPool.ofJsonText classSet.compress = .error (.unnamed 1)
  := by
  obtain ⟨⟨names, _, _, last, missing⟩, isolated, _, failing, _, sets⟩ :=
    ClassPool.keeps_last_insertions (history broken) pool [first, second] classSet.compress
  obtain ⟨_, _, loading, _, loaded, _⟩ :=
    ClassPool.keeps_last_insertions (history broken) pool [first, first] classSet.compress
  have hfirst : pool.load first = .ok decl := last [_, _] (.decl decl) [] rfl nofun
  have hsecond : pool.load second = .error (.malformed second .undecodable) :=
    last [_] (.document second broken) [_] rfl (by decide)
  have hothers : (history broken).filter (fun i => i.name ≠ second) =
      (history .null).filter (fun i => i.name ≠ second) := rfl
  obtain ⟨v, hv⟩ := loading.2 (by simp [hfirst])
  refine ⟨names, hfirst, hsecond, missing _ (by decide), ?_, ?_, ⟨v, hv, (loaded v hv).1⟩, ?_⟩
  · rw [← isolated hothers first (by decide)]
    apply hfirst
  · apply (failing _).2 ⟨[first], second, [], rfl, by simp [hfirst], hsecond⟩
  · apply (sets _).2 readsSet_classSet

end Reinserted

namespace Refused

/-! Two documents with names, the second of which has a number beyond the doubles in a member that
classes do not have. -/

def text : String := "[\x7b\"name\":\"a.A\"\x7d,\x7b\"name\":\"b.B\",\"x\":1e400\x7d]"

def firstText : String := "\x7b\"name\":\"a.A\"\x7d"
def secondText : String := "\x7b\"name\":\"b.B\",\"x\":1e400\x7d"

def first : Json := .obj [("name", .str "a.A")]
def second : Json := .obj [("name", .str "b.B"), ("x", .garbled)]

def number : Json.MemberText := ⟨"\"x\"".toList, some "x", "1e400".toList, .garbled⟩

theorem numeral_text :
  Json.Numeral "1e400".toList .garbled
  := by
  have hwhole : Json.Digits ['1'] := ⟨List.forall_mem_singleton.2 rfl, List.cons_ne_nil _ _⟩
  have hexponent : Json.Digits ['4', '0', '0'] := by
    refine ⟨?_, List.cons_ne_nil _ _⟩
    rw [List.forall_mem_cons, List.forall_mem_cons, List.forall_mem_singleton]
    exact ⟨rfl, rfl, rfl⟩
  exact @Json.Numeral.intro false ['1'] [] ['e', '4', '0', '0'] none (some 400) hwhole (by decide)
    .absent (.unsigned (.inl rfl) hexponent)

theorem spells_first :
  Json.Spells firstText.toList first
  := by
  have hexact : first.Exact := .obj (by simpa using .str "a.A")
  apply hexact.spells

theorem spells_second :
  Json.Spells secondText.toList second
  := by
  apply @Json.Spells.obj (Json.memberText ("name", .str "b.B")) [number]
  · rw [List.forall_mem_cons, List.forall_mem_singleton]
    exact ⟨Json.quoted_stringText "name", Json.quoted_stringText "x"⟩
  · rw [List.forall_mem_cons, List.forall_mem_singleton]
    exact ⟨.string (Json.quoted_stringText "b.B"), .number numeral_text⟩

/-- The set is refused, and neither class can be loaded from it, though each document alone is the
document of a class. -/
theorem named_documents_refused :
  Json.Spells text.toList (.arr [first, second]) ∧ first.GivesName "a.A" ∧
  second.GivesName "b.B" ∧ ClassPool.ofJsonText text = .error .notAnArray ∧
  ClassDecl.ofText ⟨"a.A"⟩ firstText = .ok ⟨⟨"a.A"⟩, none, [], none, []⟩ ∧
  ClassDecl.ofText ⟨"b.B"⟩ secondText = .ok ⟨⟨"b.B"⟩, none, [], none, []⟩
  := by
  have harray : Json.Spells text.toList (.arr [first, second]) := by
    apply @Json.Spells.arr (firstText.toList, first) [(secondText.toList, second)]
    rw [List.forall_mem_cons, List.forall_mem_singleton]
    exact ⟨spells_first, spells_second⟩
  have hfault : ¬second.IsReadable := by
    rintro ⟨hsound, _⟩
    cases hsound
  have hfirst : Json.parse? firstText = some first :=
    Json.parse?_eq_some_iff.2 ⟨first, spells_first, rfl⟩
  have hsecond : Json.parse? secondText = some second :=
    Json.parse?_eq_some_iff.2 ⟨second, spells_second, rfl⟩
  refine ⟨harray, @Json.GivesName.intro [] [] _ nofun, @Json.GivesName.intro [] [_] _ (by decide),
    ?_, ?_, ?_⟩
  · apply (ClassPool.ReadsSet.unreadable harray (by simp) hfault).ofJsonText_eq
  · rw [ClassDecl.ofText, hfirst]
    rfl
  · rw [ClassDecl.ofText, hsecond]
    rfl

end Refused

end ServiceFlow
