import Mathlib.Data.List.Induction
import ServiceFlow.Proofs.Ir.Codec
import ServiceFlow.Proofs.Value.Store
import ServiceFlow.Value.Codec

/-!
# Forms of abstract values

A value is read back from its JSON form exactly if it is canonical: the fields of every object in
it are in ascending order.  Every value that is read is canonical, whatever the order and number
of the pairs in the text; the last pair of a field decides.
-/

namespace ServiceFlow

open Json (Represents record? represents_str represents_list)

/-! ### Association lists -/

namespace Sorted

variable {κ ν : Type} [Ord κ]

omit [Ord κ] in
theorem lookup_ne_none_iff [DecidableEq κ] {k : κ} {l : List (κ × ν)} :
  lookup k l ≠ none ↔ k ∈ l.map (·.1)
  := by
  induction l with
  | nil => simp [lookup]
  | cons e l ih =>
      rw [lookup, List.map_cons, List.mem_cons]
      split
      · next heq => simp [heq]
      · next hne => rw [ih, or_iff_right hne]

/-- A pair behind all others is put at the end. -/
theorem insert_of_forall_lt [Std.OrientedOrd κ] {k : κ} (v : ν) {l : List (κ × ν)}
    (h : ∀ e ∈ l, compare e.1 k = .lt) :
  insert k v l = l ++ [(k, v)]
  := by
  induction l with
  | nil => rfl
  | cons e l ih =>
      have hgt : compare k e.1 = .gt := Std.OrientedCmp.gt_of_lt (h e (by simp))
      rw [insert, hgt]
      simp only
      rw [ih fun e he => h e (by simp [he]), List.cons_append]

/-- Ascending pairs are put one behind the other. -/
theorem foldl_insert_of_ascending [Std.OrientedOrd κ] {l m : List (κ × ν)}
    (h : Ascending (l ++ m)) :
  m.foldl (fun acc e => insert e.1 e.2 acc) l = l ++ m
  := by
  induction m generalizing l with
  | nil => simp
  | cons e m ih =>
      have hlt : ∀ d ∈ l, compare d.1 e.1 = .lt := by
        intro d hd
        exact (List.pairwise_append.1 h).2.2 d hd e (by simp)
      have hstep : Ascending ((l ++ [e]) ++ m) := by simpa using h
      rw [List.foldl_cons, insert_of_forall_lt e.2 hlt, ih hstep]
      simp

end Sorted

namespace Value

/-! ### Fields from pairs -/

theorem fieldsOfList_concat (entries : List (FieldSig × Value)) (e : FieldSig × Value) :
  fieldsOfList (entries ++ [e]) = Sorted.insert e.1 e.2 (fieldsOfList entries)
  := by
  simp [fieldsOfList]

theorem fieldsOfList_of_ascending {fields : List (FieldSig × Value)}
    (h : Sorted.Ascending fields) :
  fieldsOfList fields = fields
  := Sorted.foldl_insert_of_ascending (l := []) h

theorem ascending_fieldsOfList (entries : List (FieldSig × Value)) :
  Sorted.Ascending (fieldsOfList entries)
  := by
  induction entries using List.reverseRecOn with
  | nil => exact Sorted.ascending_nil
  | append_singleton entries e ih =>
      rw [fieldsOfList_concat]
      exact ih.insert e.1 e.2

/-- The last pair of a field decides. -/
theorem lookup_fieldsOfList (f : FieldSig) (entries : List (FieldSig × Value)) :
  Sorted.lookup f (fieldsOfList entries) = Sorted.lookup f entries.reverse
  := by
  induction entries using List.reverseRecOn with
  | nil => rfl
  | append_singleton entries e ih =>
      rw [fieldsOfList_concat, Sorted.lookup_insert, ih, List.reverse_append]
      rfl

/-- Each field that has a pair is there, and no other. -/
theorem mem_map_fst_fieldsOfList {f : FieldSig} {entries : List (FieldSig × Value)} :
  f ∈ (fieldsOfList entries).map (·.1) ↔ f ∈ entries.map (·.1)
  := by
  rw [← Sorted.lookup_ne_none_iff, lookup_fieldsOfList, Sorted.lookup_ne_none_iff,
    List.map_reverse, List.mem_reverse]

theorem mem_of_mem_fieldsOfList {e : FieldSig × Value} {entries : List (FieldSig × Value)}
    (h : e ∈ fieldsOfList entries) :
  e ∈ entries
  := by
  induction entries using List.reverseRecOn with
  | nil => exact h
  | append_singleton entries d ih =>
      rw [fieldsOfList_concat] at h
      rcases Sorted.mem_insert h with rfl | h
      · simp
      · exact List.mem_append_left _ (ih h)

/-! ### Reading to any depth -/

/-- The content of a value is nested less deeply than the value. -/
theorem depth_lt_of_kindAndContent? {pairKind : Json → Option String} {j content : Json}
    {name : String} (h : kindAndContent? pairKind j = some (name, some content)) :
  content.depth < j.depth
  := by
  unfold kindAndContent? at h
  split at h
  · next members =>
    split at h
    · next kind place hrecord =>
      obtain ⟨_, -, hplace⟩ := Option.map_eq_some_iff.1 h
      obtain rfl : place = some content := by simpa using congrArg Prod.snd hplace
      obtain ⟨m, hm, rfl⟩ := Json.exists_mem_of_record? hrecord (j := content) (by simp)
      exact Nat.lt_succ_of_le (Json.depth_le_membersDepth hm)
    · cases h
  · next kind c =>
    obtain ⟨_, -, hc⟩ := Option.map_eq_some_iff.1 h
    obtain rfl : c = content := by simpa using congrArg Prod.snd hc
    exact Nat.lt_succ_of_le (Json.depth_le_itemsDepth (by simp))
  · cases h

/-- A field is read from its pair by reading what is nested in the pair. -/
theorem decodePair?_congr {read read' : Json → Option Value} {j : Json}
    (h : ∀ k, k.depth < j.depth → read k = read' k) :
  decodePair? read j = decodePair? read' j
  := by
  unfold decodePair?
  split
  · next f v =>
    rw [h v (Nat.lt_succ_of_le (Json.depth_le_itemsDepth (by simp)))]
  · rfl

/-- The fields of an object are read from what is nested in its content. -/
theorem decodeObject?_congr {read read' : Json → Option Value} {content : Json}
    (h : ∀ k, k.depth < content.depth → read k = read' k) :
  decodeObject? read content = decodeObject? read' content
  := by
  unfold decodeObject?
  split
  · next members =>
    split
    · rfl
    · next type items hrecord =>
      obtain ⟨m, hm, hitems⟩ := Json.exists_mem_of_record? hrecord (j := .arr items) (by simp)
      have hdepth := Json.depth_le_membersDepth hm
      rw [hitems, Json.depth] at hdepth
      rw [Json.depth] at h
      have hpairs : items.mapM (decodePair? read) = items.mapM (decodePair? read') := by
        apply Json.mapM_congr
        intro j hj
        apply decodePair?_congr
        intro k hk
        have := Json.depth_le_itemsDepth hj
        apply h k
        omega
      rw [hpairs]
    · rfl
  · rfl

/-- Beyond the depth of the JSON value, no more fuel is needed. -/
theorem decodeWithin_congr (pairKind : Json → Option String) {j : Json} {fuel fuel' : Nat}
    (h : j.depth < fuel) (h' : j.depth < fuel') :
  decodeWithin pairKind fuel j = decodeWithin pairKind fuel' j
  := by
  induction fuel generalizing j fuel' with
  | zero => cases h
  | succ fuel ih =>
      cases fuel' with
      | zero => cases h'
      | succ fuel' =>
          rw [decodeWithin, decodeWithin]
          split
          · rfl
          · rfl
          · rfl
          · rfl
          · next content hcontent =>
            have hdepth := depth_lt_of_kindAndContent? hcontent
            apply decodeObject?_congr
            intro k hk
            apply ih <;> omega
          · rfl

/-! ### Objects -/

/-- The form of an object whose fields are given by a list of pairs. -/
def objectForm (c : ClassName) (items : List Json) : Json :=
  .obj [("kind", .str "object_ref"), ("value", .obj [("ty", c.encode), ("fields", .arr items)])]

/-- The form of a field with its value. -/
def pairForm (e : FieldSig × Value) : Json := .arr [e.1.encode, e.2.encode]

theorem encodeFields_eq_map (fields : List (FieldSig × Value)) :
  encodeFields fields = fields.map pairForm
  := by
  induction fields with
  | nil => rfl
  | cons e fields ih => rw [encodeFields, ih, List.map_cons, pairForm]

theorem encode_object (c : ClassName) (fields : List (FieldSig × Value)) :
  (Value.object c (some fields)).encode = objectForm c (fields.map pairForm)
  := by
  rw [encode, objectForm, encodeFields_eq_map]

theorem depth_objectForm (c : ClassName) (items : List Json) :
  (objectForm c items).depth = Json.itemsDepth items + 3
  := by
  simp [objectForm, Json.depth, Json.membersDepth, ClassName.encode]

theorem plain_objectForm {c : ClassName} {items : List Json} :
  (objectForm c items).Plain ↔ (Json.arr items).Plain
  := by
  simp [objectForm, c.represents.plain]

/-- An object is read from the pairs of its fields. -/
theorem decodeWithin_objectForm (pairKind : Json → Option String) (fuel : Nat) (c : ClassName)
    (items : List Json) :
  decodeWithin pairKind (fuel + 1) (objectForm c items) =
    (items.mapM (decodePair? (decodeWithin pairKind fuel))).map
      (fun entries => .object c (some (fieldsOfList entries)))
  := by
  have hcontent : decodeObject? (decodeWithin pairKind fuel)
      (.obj [("ty", c.encode), ("fields", .arr items)]) =
      (items.mapM (decodePair? (decodeWithin pairKind fuel))).map
        (fun entries => .object c (some (fieldsOfList entries))) := by
    have hrecord : record? objectMembers (.obj [("ty", c.encode), ("fields", .arr items)]) =
        some [some c.encode, some (.arr items)] :=
      Json.record?_obj (by decide) [_, _] rfl
    simp [decodeObject?, hrecord, c.represents.read_eq, Option.map_eq_bind]
  have hkind : kindAndContent? pairKind (objectForm c items) =
      some ("object_ref", some (.obj [("ty", c.encode), ("fields", .arr items)])) := by
    have hrecord : record? kindMembers (objectForm c items) = some [some (.str "object_ref"),
        some (.obj [("ty", c.encode), ("fields", .arr items)])] :=
      Json.record?_obj (by decide) [_, _] rfl
    rw [objectForm] at hrecord ⊢
    simp [kindAndContent?, hrecord, Json.plainVariant?, Json.variant?, Json.noContent]
  simp [decodeWithin, hkind, hcontent]

/-- The pairs of an object are read as values of their own. -/
theorem decode?_objectForm (c : ClassName) (items : List Json) :
  decode? (objectForm c items) =
    (items.mapM (decodePair? decode?)).map (fun entries => .object c (some (fieldsOfList entries)))
  := by
  have hpairs : items.mapM (decodePair? (decodeWithin Json.string? (objectForm c items).depth)) =
      items.mapM (decodePair? decode?) := by
    apply Json.mapM_congr
    intro j hj
    apply decodePair?_congr
    intro k hk
    have hdepth : k.depth < (objectForm c items).depth := by
      have := Json.depth_le_itemsDepth hj
      rw [depth_objectForm]
      omega
    exact decodeWithin_congr _ hdepth (Nat.lt_succ_self _)
  rw [decode?, decodeWithin_objectForm, hpairs]

/-! ### Canonical values -/

/-- The fields of each object in the value are in ascending order. -/
inductive Canonical : Value → Prop
  | unknown : Canonical .unknown
  | str (s : String) : Canonical (.str s)
  | cls (name : String) : Canonical (.cls name)
  | null : Canonical .null
  | bare (c : ClassName) : Canonical (.object c none)
  | object (c : ClassName) {fields : List (FieldSig × Value)} (hfields : Sorted.Ascending fields)
      (h : ∀ e ∈ fields, Canonical e.2) : Canonical (.object c (some fields))

/-- A field is read back from its pair if its value is. -/
theorem represents_pair {read : Json → Option Value} {e : FieldSig × Value}
    (h : Represents read e.2.encode e.2) :
  Represents (decodePair? read) (pairForm e) e
  := by
  have hfield := e.1.represents
  constructor
  · simp [pairForm, decodePair?, hfield.read_eq, h.read_eq]
  · simp [pairForm, hfield.plain, h.plain]

/-- Canonical values are read back. -/
theorem Canonical.represents {v : Value} (h : v.Canonical) (pairKind : Json → Option String)
    {fuel : Nat} (hfuel : v.encode.depth < fuel) :
  Represents (decodeWithin pairKind fuel) v.encode v
  := by
  induction fuel generalizing v with
  | zero => cases hfuel
  | succ fuel ih =>
      cases h with
      | unknown => exact ⟨rfl, by simp [encode]⟩
      | str s => exact ⟨rfl, by simp [encode]⟩
      | cls name => exact ⟨rfl, by simp [encode]⟩
      | null => exact ⟨rfl, by simp [encode]⟩
      | bare c => exact ⟨rfl, by simp [encode, c.represents.plain]⟩
      | @object c fields hfields h =>
          have hpairs : Represents (Json.list? (decodePair? (decodeWithin pairKind fuel)))
              (.ofList pairForm fields) fields := by
            apply represents_list
            intro e he
            apply represents_pair
            apply ih (h e he)
            have hdepth := Json.depth_le_itemsDepth (List.mem_map_of_mem (f := pairForm) he)
            rw [pairForm, Json.depth, Json.itemsDepth, Json.itemsDepth] at hdepth
            rw [encode_object, depth_objectForm] at hfuel
            omega
          constructor
          · rw [encode_object, decodeWithin_objectForm]
            have hread : (fields.map pairForm).mapM (decodePair? (decodeWithin pairKind fuel)) =
              some fields := hpairs.read_eq
            rw [hread, Option.map_some, fieldsOfList_of_ascending hfields]
          · rw [encode_object, plain_objectForm]
            exact hpairs.plain

theorem Canonical.represents_decode? {v : Value} (h : v.Canonical) :
  Represents decode? v.encode v
  := by
  have hv := h.represents Json.string? (Nat.lt_succ_self _)
  exact ⟨hv.read_eq, hv.plain⟩

theorem Canonical.represents_decodeNumbered? {v : Value} (h : v.Canonical) :
  Represents decodeNumbered? v.encode v
  := by
  have hv := h.represents numberedKind? (Nat.lt_succ_self _)
  exact ⟨hv.read_eq, hv.plain⟩

/-- The values of the fields of an object are read as canonical ones if all values are. -/
theorem canonical_of_decodeObject? {read : Json → Option Value}
    (hread : ∀ j v, read j = some v → v.Canonical) {content : Json} {v : Value}
    (h : decodeObject? read content = some v) :
  v.Canonical
  := by
  unfold decodeObject? at h
  split at h
  · split at h
    · obtain ⟨c, -, rfl⟩ := Option.map_eq_some_iff.1 h
      exact .bare c
    · next type items _ =>
      simp only [Option.bind_eq_bind, Option.bind_eq_some_iff, Option.pure_def,
        Option.some.injEq] at h
      obtain ⟨c, -, entries, hentries, rfl⟩ := h
      apply Canonical.object c (ascending_fieldsOfList entries)
      intro e he
      obtain ⟨j, -, hj⟩ := Json.exists_of_mem_mapM hentries (mem_of_mem_fieldsOfList he)
      unfold decodePair? at hj
      split at hj
      · simp only [Option.bind_eq_bind, Option.bind_eq_some_iff, Option.pure_def,
          Option.some.injEq] at hj
        obtain ⟨f, -, w, hw, rfl⟩ := hj
        exact hread _ _ hw
      · cases hj
    · cases h
  · cases h

/-- Values are read as canonical ones. -/
theorem canonical_of_decodeWithin {pairKind : Json → Option String} {fuel : Nat} {j : Json}
    {v : Value} (h : decodeWithin pairKind fuel j = some v) :
  v.Canonical
  := by
  induction fuel generalizing j v with
  | zero => cases h
  | succ fuel ih =>
      rw [decodeWithin] at h
      split at h
      · split at h <;> cases h
        exact .unknown
      · obtain ⟨s, -, rfl⟩ := Option.map_eq_some_iff.1 h
        exact .str s
      · obtain ⟨s, -, rfl⟩ := Option.map_eq_some_iff.1 h
        exact .cls s
      · split at h <;> cases h
        exact .null
      · exact canonical_of_decodeObject? (fun _ _ hread => ih hread) h
      · cases h

end Value

end ServiceFlow
