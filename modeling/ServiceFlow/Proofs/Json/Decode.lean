import ServiceFlow.Json.Decode
import ServiceFlow.Proofs.Json.Text

/-!
# Forms of structures

A structure is read back from its JSON form.  The forms are put together from names, numbers,
lists, structures and alternatives, and so are their readers: for each way to put forms together
there is a lemma that what is so put together is read back if its parts are.

No form has an empty object in it, hence a reader that takes an empty object for null finds none to
replace.
-/

namespace ServiceFlow.Json

variable {α : Type} {read : Json → Option α}

/-- A value as structures are written: its numbers are integers of 64 bits, and no object in it is
empty. -/
inductive Plain : Json → Prop
  | null : Plain .null
  | bool (b : Bool) : Plain (.bool b)
  | int {i : Int} (hmin : Int64.minValue.toInt ≤ i) (hmax : i < UInt64.size) : Plain (.int i)
  | str (s : String) : Plain (.str s)
  | arr {items : List Json} (h : ∀ j ∈ items, Plain j) : Plain (.arr items)
  | obj {members : List (String × Json)} (hne : members ≠ []) (h : ∀ m ∈ members, Plain m.2) :
    Plain (.obj members)

attribute [simp] Plain.null Plain.bool Plain.str

theorem Plain.exact {j : Json} (h : j.Plain) :
  j.Exact
  := by
  induction h with
  | null => exact .null
  | bool b => exact .bool b
  | int hmin hmax => exact .int hmin hmax
  | str s => exact .str s
  | arr _ ih => exact .arr ih
  | obj _ _ ih => exact .obj ih

@[simp]
theorem plain_arr {items : List Json} :
  (Json.arr items).Plain ↔ ∀ j ∈ items, j.Plain
  := by
  constructor
  · rintro ⟨⟩
    assumption
  · exact .arr

@[simp]
theorem plain_obj {members : List (String × Json)} :
  (Json.obj members).Plain ↔ members ≠ [] ∧ ∀ m ∈ members, m.2.Plain
  := by
  constructor
  · rintro ⟨⟩
    exact ⟨‹_›, ‹_›⟩
  · rintro ⟨hne, h⟩
    exact .obj hne h

theorem plain_ofNat {n : Nat} (hn : n < UInt64.size) :
  (Json.ofNat n).Plain
  := by
  apply Plain.int
  · apply Int.le_trans (b := 0) (by decide) (by simp)
  · simpa using hn

theorem plain_int64 (v : Int64) :
  (Json.int v.toInt).Plain
  := by
  apply Plain.int v.minValue_le_toInt
  apply Int.lt_of_le_of_lt v.toInt_le
  decide

@[simp]
theorem plain_tagged {name : String} {content : Json} :
  (tagged name content).Plain ↔ content.Plain
  := by
  simp [tagged]

/-! ### Empty contents -/

theorem itemsWithoutEmptyContents_eq {items : List Json}
    (h : ∀ j ∈ items, j.withoutEmptyContents = j) :
  itemsWithoutEmptyContents items = items
  := by
  induction items with
  | nil => rfl
  | cons j items ih => simp_all [itemsWithoutEmptyContents]

theorem membersWithoutEmptyContents_eq {members : List (String × Json)}
    (h : ∀ m ∈ members, m.2.withoutEmptyContents = m.2) :
  membersWithoutEmptyContents members = members
  := by
  induction members with
  | nil => rfl
  | cons m members ih => simp_all [membersWithoutEmptyContents]

/-- There are no empty contents in a plain value. -/
theorem Plain.withoutEmptyContents_eq {j : Json} (h : j.Plain) :
  j.withoutEmptyContents = j
  := by
  induction h with
  | null | bool | int | str => rfl
  | arr h ih => rw [withoutEmptyContents, itemsWithoutEmptyContents_eq ih]
  | obj hne h ih =>
      rw [withoutEmptyContents, membersWithoutEmptyContents_eq ih]
      rintro name rfl
      simp at h

/-! ### Depths -/

theorem depth_le_itemsDepth {j : Json} {items : List Json} (h : j ∈ items) :
  j.depth ≤ itemsDepth items
  := by
  induction items with
  | nil => cases h
  | cons k items ih =>
      rw [itemsDepth]
      rcases List.mem_cons.1 h with rfl | h
      · apply le_max_left
      · exact le_max_of_le_right (ih h)

theorem depth_le_membersDepth {m : String × Json} {members : List (String × Json)}
    (h : m ∈ members) :
  m.2.depth ≤ membersDepth members
  := by
  induction members with
  | nil => cases h
  | cons n members ih =>
      rw [membersDepth]
      rcases List.mem_cons.1 h with rfl | h
      · apply le_max_left
      · exact le_max_of_le_right (ih h)

/-! ### Structures -/

theorem mapM_congr {β : Type} {f g : α → Option β} {l : List α} (h : ∀ a ∈ l, f a = g a) :
  l.mapM f = l.mapM g
  := by
  induction l with
  | nil => rfl
  | cons a l ih =>
      rw [List.mapM_cons, List.mapM_cons, h a (by simp), ih fun b hb => h b (by simp [hb])]

theorem exists_of_mem_mapM {β : Type} {f : α → Option β} {l : List α} {r : List β}
    (h : l.mapM f = some r) {b : β} (hb : b ∈ r) :
  ∃ a ∈ l, f a = some b
  := by
  induction l generalizing r with
  | nil =>
      obtain rfl : [] = r := by simpa using h
      cases hb
  | cons a l ih =>
      rw [List.mapM_cons] at h
      simp only [Option.bind_eq_bind, Option.bind_eq_some_iff, Option.pure_def,
        Option.some.injEq] at h
      obtain ⟨c, hc, r', hr, rfl⟩ := h
      rcases List.mem_cons.1 hb with rfl | hb
      · exact ⟨a, by simp, hc⟩
      · obtain ⟨a', ha', h'⟩ := ih hr hb
        exact ⟨a', by simp [ha'], h'⟩

theorem uniqueMember?_cons_of_ne {key name : String} (h : name ≠ key) (j : Json)
    (members : List (String × Json)) :
  uniqueMember? ((name, j) :: members) key = uniqueMember? members key
  := by
  simp [uniqueMember?, h]

theorem uniqueMember?_cons_self {key : String} (j : Json) {members : List (String × Json)}
    (h : key ∉ members.map (·.1)) :
  uniqueMember? ((key, j) :: members) key = some (some j)
  := by
  have hnone : members.filter (fun m => m.1 = key) = [] := by
    rw [List.filter_eq_nil_iff]
    rintro m hm hkey
    apply h
    rw [← of_decide_eq_true hkey]
    exact List.mem_map_of_mem hm
  simp [uniqueMember?, hnone]

/-- An object with a member for each name is a structure. -/
theorem record?_obj {names : List String} (hnames : names.Nodup) (values : List Json)
    (hlength : values.length = names.length) :
  record? names (.obj (names.zip values)) = some (values.map some)
  := by
  induction names generalizing values with
  | nil =>
      obtain rfl := List.eq_nil_of_length_eq_zero hlength
      rfl
  | cons name names ih =>
      obtain ⟨j, values, rfl⟩ := List.exists_cons_of_length_eq_add_one hlength
      obtain ⟨hname, hnames⟩ := List.nodup_cons.1 hnames
      have hkeys : name ∉ (names.zip values).map (·.1) := by
        rw [List.map_fst_zip (by simp_all)]
        exact hname
      have hmore : names.mapM (uniqueMember? ((name, j) :: names.zip values)) =
          names.mapM (uniqueMember? (names.zip values)) := by
        apply mapM_congr
        intro key hkey
        apply uniqueMember?_cons_of_ne
        rintro rfl
        exact hname hkey
      have hvalues := ih hnames values (by simpa using hlength)
      rw [record?] at hvalues ⊢
      simp [uniqueMember?_cons_self j hkeys, hmore, hvalues]

/-- A member of a structure is a member of the object. -/
theorem exists_mem_of_record? {names : List String} {members : List (String × Json)}
    {places : List (Option Json)} (h : record? names (.obj members) = some places) {j : Json}
    (hj : some j ∈ places) :
  ∃ m ∈ members, m.2 = j
  := by
  obtain ⟨name, -, hname⟩ := exists_of_mem_mapM h hj
  unfold uniqueMember? at hname
  split at hname
  · cases hname
  · next m hfilter =>
    have hm : m ∈ members.filter (fun m => m.1 = name) := by simp [hfilter]
    exact ⟨m, (List.mem_filter.1 hm).1, by simpa using hname⟩
  · cases hname

@[simp]
theorem required_some (j : Json) :
  required read (some j) = read j
  := rfl

@[simp]
theorem defaulted_some (default : α) (j : Json) :
  defaulted default read (some j) = read j
  := rfl

theorem exists_of_required {place : Option Json} {a : α} (h : required read place = some a) :
  ∃ j, read j = some a
  := by
  obtain ⟨j, -, hj⟩ := Option.bind_eq_some_iff.1 h
  exact ⟨j, hj⟩

theorem exists_of_mem_list? {j : Json} {l : List α} (h : list? read j = some l) {a : α}
    (ha : a ∈ l) :
  ∃ k, read k = some a
  := by
  unfold list? at h
  split at h
  · obtain ⟨k, -, hk⟩ := exists_of_mem_mapM h ha
    exact ⟨k, hk⟩
  · cases h

theorem lt_of_natBelow? {bound n : Nat} {j : Json} (h : natBelow? bound j = some n) :
  n < bound
  := by
  simp only [natBelow?, Option.bind_eq_bind, Option.bind_eq_some_iff] at h
  obtain ⟨i, -, hi⟩ := h
  split at hi
  · next hrange =>
    obtain rfl := Option.some.inj hi
    omega
  · cases hi

/-! ### Represented structures -/

/-- The value is the form of the structure: the reader finds the structure in it. -/
structure Represents (read : Json → Option α) (j : Json) (a : α) : Prop where
  read_eq : read j = some a
  plain : j.Plain

theorem represents_str (s : String) :
  Represents string? (.str s) s
  := ⟨rfl, .str s⟩

theorem represents_natBelow {n bound : Nat} (hn : n < bound) (hbound : bound ≤ UInt64.size) :
  Represents (natBelow? bound) (.ofNat n) n
  := by
  refine ⟨?_, plain_ofNat (by omega)⟩
  simp [natBelow?, int?, Json.ofNat, hn]

theorem represents_uint32 (n : UInt32) :
  Represents uint32? (.ofNat n.toNat) n
  := by
  have h := represents_natBelow n.toNat_lt_size (by decide)
  exact ⟨by simp [uint32?, h.read_eq], h.plain⟩

theorem represents_uint64 (n : UInt64) :
  Represents uint64? (.ofNat n.toNat) n
  := by
  have h := represents_natBelow n.toNat_lt_size (by decide)
  exact ⟨by simp [uint64?, h.read_eq], h.plain⟩

theorem represents_int64 (v : Int64) :
  Represents int64? (.int v.toInt) v
  := by
  refine ⟨?_, plain_int64 v⟩
  have hrange : Int64.minValue.toInt ≤ v.toInt ∧ v.toInt ≤ Int64.maxValue.toInt :=
    ⟨v.minValue_le_toInt, v.toInt_le⟩
  simp only [int64?, int?, Option.bind_eq_bind, Option.bind_some]
  rw [if_pos hrange, Int64.ofInt_toInt]

theorem Represents.map {β : Type} {j : Json} {a : α} (h : Represents read j a) (f : α → β) :
  Represents (fun j => (read j).map f) j (f a)
  := by
  refine ⟨?_, h.plain⟩
  rw [h.read_eq, Option.map_some]

/-- An alternative is represented if its content is. -/
theorem Represents.tagged {readContent : Json → Option α} {content : Json} {a : α}
    (h : Represents readContent content a) {name : String}
    (hread : read (Json.tagged name content) = readContent content) :
  Represents read (Json.tagged name content) a
  := by
  constructor
  · rw [hread, h.read_eq]
  · rw [plain_tagged]
    exact h.plain

/-- The forms of a list's elements make up the form of the list. -/
theorem represents_list {write : α → Json} {l : List α}
    (h : ∀ a ∈ l, Represents read (write a) a) :
  Represents (list? read) (ofList write l) l
  := by
  constructor
  · have hread : l.mapM (read ∘ write) = l.mapM (fun a => pure (id a)) :=
      mapM_congr fun a ha => (h a ha).read_eq
    rw [ofList, list?, List.mapM_map, hread, List.mapM_pure, List.map_id]
    rfl
  · simpa [ofList] using fun a ha => (h a ha).plain

/-- A structure that may be missing is written as null if it is. -/
theorem represents_option {write : α → Json} {o : Option α}
    (h : ∀ a ∈ o, Represents read (write a) a ∧ write a ≠ .null) :
  Represents (nullable read) (ofOption write o) o
  := by
  cases o with
  | none => exact ⟨rfl, .null⟩
  | some a =>
      obtain ⟨ha, hnull⟩ := h a rfl
      refine ⟨?_, ha.plain⟩
      rw [ofOption, nullable, ha.read_eq, Option.map_some]
      exact hnull

end ServiceFlow.Json
