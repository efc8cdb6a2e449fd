import ServiceFlow.Json.Reader

/-!
# The grammar of JSON texts

`Json.Spells cs j` says that the characters `cs` are the text of a value, with white space wherever
it may stand, and that `j` is the value.  The relation knows nothing of reading: it has a rule for
each form of a value, and no bound on how deep values nest.  A number too large for a double, a
string with an unpaired surrogate and an object with such a key are texts as good as any other; they
spell `Json.garbled`.

`Json.within` takes out what lies below a number of levels, as a reader does that goes no deeper.
-/

namespace ServiceFlow.Json

/-- Nothing but white space. -/
def Blank (cs : List Char) : Prop := ∀ c ∈ cs, isBlank c

theorem blank_nil :
  Blank []
  := by
  intro c hc
  cases hc

/-! ### Strings -/

/-- The code units that characters between quotation marks stand for. -/
inductive Units : List Char → List Nat → Prop where
  | nil : Units [] []
  | plain {c : Char} {cs : List Char} {ns : List Nat} (hcontrol : 0x20 ≤ c.toNat) (hquote : c ≠ '"')
      (hslash : c ≠ '\\') (h : Units cs ns) : Units (c :: cs) (c.toNat :: ns)
  | escape {c e : Char} {cs : List Char} {ns : List Nat} (hc : simpleEscape? c = some e)
      (h : Units cs ns) : Units ('\\' :: c :: cs) (e.toNat :: ns)
  | hex {a b c d : Char} {n : Nat} {cs : List Char} {ns : List Nat} (hn : hexUnit? a b c d = some n)
      (h : Units cs ns) : Units ('\\' :: 'u' :: a :: b :: c :: d :: cs) (n :: ns)

/-- The string of code units, if each surrogate has its partner. -/
def stringOf? (ns : List Nat) : Option String := (joinUnits [] ns.reverse).map String.ofList

/-- A string between quotation marks, with white space around them. -/
inductive Quoted : List Char → Option String → Prop where
  | intro {before cs after : List Char} {ns : List Nat} (hbefore : Blank before) (h : Units cs ns)
      (hafter : Blank after) : Quoted (before ++ '"' :: (cs ++ '"' :: after)) (stringOf? ns)

/-! ### Numbers -/

/-- At least one digit. -/
structure Digits (ds : List Char) : Prop where
  isDigit : ∀ d ∈ ds, d.isDigit
  ne_nil : ds ≠ []

/-- The fraction of a number, if it has one. -/
inductive Fraction : List Char → Option (List Char) → Prop where
  | absent : Fraction [] none
  | present {ds : List Char} (h : Digits ds) : Fraction ('.' :: ds) (some ds)

/-- The exponent of a number, if it has one. -/
inductive Exponent : List Char → Option Int → Prop where
  | absent : Exponent [] none
  | unsigned {mark : Char} {ds : List Char} (hmark : mark = 'e' ∨ mark = 'E') (h : Digits ds) :
      Exponent (mark :: ds) (some (Text.digitsValue ds))
  | plus {mark : Char} {ds : List Char} (hmark : mark = 'e' ∨ mark = 'E') (h : Digits ds) :
      Exponent (mark :: '+' :: ds) (some (Text.digitsValue ds))
  | minus {mark : Char} {ds : List Char} (hmark : mark = 'e' ∨ mark = 'E') (h : Digits ds) :
      Exponent (mark :: '-' :: ds) (some (-(Text.digitsValue ds : Int)))

/-- The sign of a number. -/
def signText (negative : Bool) : List Char := if negative then ['-'] else []

/-- A number.  A zero in front stands alone before the fraction. -/
inductive Numeral : List Char → Json → Prop where
  | intro {negative : Bool} {ds fs es : List Char} {fraction : Option (List Char)}
      {exponent : Option Int} (hds : Digits ds) (hzero : ds.head? = some '0' → ds.length ≤ 1)
      (hfs : Fraction fs fraction) (hes : Exponent es exponent) :
      Numeral (signText negative ++ (ds ++ (fs ++ es))) (number negative ds fraction exponent)

/-! ### Values -/

/-- The text of a member of an object: a key and what it denotes, and a value and its text. -/
structure MemberText where
  key : List Char
  name : Option String
  text : List Char
  value : Json

/-- The key, a colon and the value. -/
def MemberText.whole (m : MemberText) : List Char := m.key ++ ':' :: m.text

/-- The member, if its key denotes a string. -/
def MemberText.member? (m : MemberText) : Option (String × Json) :=
  m.name.map (fun key => (key, m.value))

/-- The object with the members, if all their keys denote strings. -/
def objectOf (members : List MemberText) : Json :=
  (members.mapM MemberText.member?).elim .garbled .obj

/-- The characters are the text of the value. -/
inductive Spells : List Char → Json → Prop where
  | null : Spells ['n', 'u', 'l', 'l'] .null
  | boolTrue : Spells ['t', 'r', 'u', 'e'] (.bool true)
  | boolFalse : Spells ['f', 'a', 'l', 's', 'e'] (.bool false)
  | number {cs : List Char} {j : Json} (h : Numeral cs j) : Spells cs j
  | string {cs : List Char} {s : Option String} (h : Quoted cs s) : Spells cs (s.elim .garbled .str)
  | emptyArr {cs : List Char} (h : Blank cs) : Spells ('[' :: (cs ++ [']'])) (.arr [])
  | arr {x : List Char × Json} {items : List (List Char × Json)}
      (h : ∀ y ∈ x :: items, Spells y.1 y.2) :
      Spells ('[' :: ([','].intercalate ((x :: items).map Prod.fst) ++ [']']))
        (.arr ((x :: items).map Prod.snd))
  | emptyObj {cs : List Char} (h : Blank cs) : Spells ('\x7b' :: (cs ++ ['\x7d'])) (.obj [])
  | obj {m : MemberText} {members : List MemberText}
      (hkeys : ∀ n ∈ m :: members, Quoted n.key n.name)
      (hvalues : ∀ n ∈ m :: members, Spells n.text n.value) :
      Spells ('\x7b' :: ([','].intercalate ((m :: members).map MemberText.whole) ++ ['\x7d']))
        (objectOf (m :: members))
  | padded {before cs after : List Char} {j : Json} (hbefore : Blank before) (h : Spells cs j)
      (hafter : Blank after) : Spells (before ++ (cs ++ after)) j

/-- White space may follow. -/
theorem Spells.append {cs after : List Char} {j : Json} (h : Spells cs j) (hafter : Blank after) :
  Spells (cs ++ after) j
  := .padded blank_nil h hafter

/-! ### Depth -/

mutual

/-- The value with nothing denoted below the given number of levels. -/
def within (levels : Nat) : Json → Json
  | .arr items => nested levels (.arr (withinItems (levels - 1) items))
  | .obj members => nested levels (.obj (withinMembers (levels - 1) members))
  | j => j

def withinItems (levels : Nat) : List Json → List Json
  | [] => []
  | j :: rest => j.within levels :: withinItems levels rest

def withinMembers (levels : Nat) : List (String × Json) → List (String × Json)
  | [] => []
  | (key, j) :: rest => (key, j.within levels) :: withinMembers levels rest

end

theorem withinItems_eq_map (levels : Nat) (items : List Json) :
  withinItems levels items = items.map (within levels)
  := by
  induction items with
  | nil => rfl
  | cons j items ih => rw [withinItems, ih, List.map_cons]

/-- On a level that is left, arrays and objects are read. -/
theorem nested_of_lt {levels n : Nat} (h : n < levels) (j : Json) :
  nested levels j = j
  := by
  rw [nested, if_neg (by omega)]

mutual

/-- What nests no deeper than that is kept. -/
theorem within_of_depth_le : ∀ {levels : Nat} (j : Json), j.depth ≤ levels → j.within levels = j
  | _, .arr items, h => by
      rw [depth] at h
      rw [within, nested_of_lt h, withinItems_of_depth_le items (by omega)]
  | _, .obj members, h => by
      rw [depth] at h
      rw [within, nested_of_lt h, withinMembers_of_depth_le members (by omega)]
  | _, .null, _ => rfl
  | _, .bool _, _ => rfl
  | _, .int _, _ => rfl
  | _, .decimal _ _, _ => rfl
  | _, .str _, _ => rfl
  | _, .garbled, _ => rfl

theorem withinItems_of_depth_le : ∀ {levels : Nat} (items : List Json),
    itemsDepth items ≤ levels → withinItems levels items = items
  | _, [], _ => rfl
  | _, j :: items, h => by
      rw [itemsDepth] at h
      rw [withinItems, within_of_depth_le j (by omega), withinItems_of_depth_le items (by omega)]

theorem withinMembers_of_depth_le : ∀ {levels : Nat} (members : List (String × Json)),
    membersDepth members ≤ levels → withinMembers levels members = members
  | _, [], _ => rfl
  | _, (key, j) :: members, h => by
      rw [membersDepth] at h
      rw [withinMembers, within_of_depth_le j (by omega),
        withinMembers_of_depth_le members (by omega)]

end

mutual

/-- What is taken out denotes nothing. -/
theorem isSound_within : ∀ {levels : Nat} (j : Json),
    (j.within levels).isSound ↔ j.isSound ∧ j.depth ≤ levels
  | 0, .arr items => by simp [within, nested, isSound, depth]
  | levels + 1, .arr items => by
      rw [within, nested_of_lt (Nat.succ_pos levels), isSound, isSound, depth, Nat.add_sub_cancel,
        itemsSound_within items, Nat.add_le_add_iff_right]
  | 0, .obj members => by simp [within, nested, isSound, depth]
  | levels + 1, .obj members => by
      rw [within, nested_of_lt (Nat.succ_pos levels), isSound, isSound, depth, Nat.add_sub_cancel,
        membersSound_within members, Nat.add_le_add_iff_right]
  | _, .null => by simp [within, isSound, depth]
  | _, .bool _ => by simp [within, isSound, depth]
  | _, .int _ => by simp [within, isSound, depth]
  | _, .decimal _ _ => by simp [within, isSound, depth]
  | _, .str _ => by simp [within, isSound, depth]
  | _, .garbled => by simp [within, isSound, depth]

theorem itemsSound_within : ∀ {levels : Nat} (items : List Json),
    itemsSound (withinItems levels items) ↔ itemsSound items ∧ itemsDepth items ≤ levels
  | _, [] => by simp [withinItems, itemsSound, itemsDepth]
  | _, j :: items => by
      rw [withinItems, itemsSound, itemsSound, itemsDepth, Bool.and_eq_true, isSound_within j,
        itemsSound_within items, Bool.and_eq_true, Nat.max_le]
      apply and_and_and_comm

theorem membersSound_within : ∀ {levels : Nat} (members : List (String × Json)),
    membersSound (withinMembers levels members) ↔
      membersSound members ∧ membersDepth members ≤ levels
  | _, [] => by simp [withinMembers, membersSound, membersDepth]
  | _, (key, j) :: members => by
      rw [withinMembers, membersSound, membersSound, membersDepth, Bool.and_eq_true,
        isSound_within j, membersSound_within members, Bool.and_eq_true, Nat.max_le]
      apply and_and_and_comm

end

end ServiceFlow.Json
