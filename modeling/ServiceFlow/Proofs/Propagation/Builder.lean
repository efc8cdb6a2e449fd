import ServiceFlow.Proofs.Value.Store
import ServiceFlow.Propagation.Transfer

/-!
# String builders

A builder is held by several locals, since an append yields the builder again.  A store keeps a
text for each of these locals on its own, and an append extends the text of its receiver and of its
result only.  Hence the text kept for a local is that of the builder exactly if nothing was appended
past it.
-/

namespace ServiceFlow.Builder

/-! ### The use of a builder -/

/-- A call of a method of string builders with at most one argument, a literal. -/
def call (kind : InvokeKind) (name : String) (result : Ty) (receiver : Local)
    (text : Option String) : Invoke where
  kind := kind
  method := ⟨.stringBuilder, name, text.toList.map (fun _ => .string), result⟩
  receiver := some receiver
  args := text.toList.map (fun text => .const (.string text))

/-- An append of a literal, whose result may go to a local. -/
structure Append where
  receiver : Local
  text : String
  result : Option Local
deriving DecidableEq, Inhabited

def Append.invoke (a : Append) : Invoke :=
  call .virtual "append" (.object .stringBuilder) a.receiver (some a.text)

def Append.stmt (a : Append) : Stmt :=
  a.result.elim (.invoke a.invoke) (fun l => .assign (.var l) (.invoke a.invoke))

/-- A local gets a new builder, literals are appended to it one after another, and the target gets
the text that the source holds in the end. -/
structure Usage where
  builder : Local
  initial : Option String
  appends : List Append
  source : Local
  target : Local
deriving DecidableEq, Inhabited

namespace Usage

def stmts (u : Usage) : List Stmt :=
  .assign (.var u.builder) (.new .stringBuilder) ::
  .invoke (call .special "<init>" .void u.builder u.initial) ::
  (u.appends.map Append.stmt ++
    [.assign (.var u.target) (.invoke (call .virtual "toString" .string u.source none))])

/-- The text of the builder in the end. -/
def text (u : Usage) : String := u.initial.getD "" ++ String.join (u.appends.map Append.text)

end Usage

/-- The locals that hold the builder after an append. -/
def Append.holders (holders : List Local) (a : Append) : List Local := a.result.toList ++ holders

/-- Literals are appended only to locals that hold the builder. -/
def appendsToHolders : List Local → List Append → Bool
  | _, [] => true
  | holders, a :: rest => a.receiver ∈ holders && appendsToHolders (a.holders holders) rest

/-- The receivers and the source hold the builder. -/
def Usage.isValid (u : Usage) : Bool :=
  appendsToHolders [u.builder] u.appends &&
    u.source ∈ u.appends.foldl Append.holders [u.builder]

/-- Which locals are current after an append.  Its receiver and its result are if the receiver was
before, and the others stay so only if nothing was appended. -/
def Append.current (current : Local → Bool) (a : Append) (l : Local) : Bool :=
  if l = a.receiver ∨ a.result = some l then current a.receiver else current l && a.text = ""

/-- No append of a text that is not empty passed the source by. -/
def Usage.isCurrent (u : Usage) : Bool :=
  u.appends.foldl Append.current (fun l => l = u.builder) u.source

/-! ### What the store keeps -/

variable {v : View} {m : MethodSig} {s : Store}

/-- The store keeps a text for every holder, at most as long as the text of the builder and equal
to it for the current holders. -/
def Tracks (m : MethodSig) (s : Store) (holders : List Local) (current : Local → Bool)
    (text : String) : Prop :=
  ∀ l ∈ holders, ∃ kept, s.getVar m l = .str kept ∧ kept.length ≤ text.length ∧
    (kept = text ↔ current l)

theorem apply_append (a : Append) {kept : String}
    (h : s.getVar m a.receiver = .str kept) :
  a.invoke.apply m s = s.setVar m a.receiver (.str (kept ++ a.text)) ∧
    (a.invoke.effect m s).result = .str (kept ++ a.text)
  := by
  have hop : LibraryCall.ofInvoke? a.invoke = some .builderAppend := rfl
  have heffect : a.invoke.effect m s =
      ⟨.str (kept ++ a.text), some (a.receiver, .str (kept ++ a.text))⟩ := by
    rw [Invoke.effect, hop]
    simp [Invoke.receiverValue, Invoke.firstValue, Append.invoke, call, h, Operand.eval,
      Value.ofConstant, Value.concat]
  constructor
  · rw [Invoke.apply, heffect, hop]
    rfl
  · rw [heffect]

/-- An append extends the texts of its receiver and its result. -/
theorem getVar_append (a : Append) {kept : String} (h : s.getVar m a.receiver = .str kept)
    (l : Local) :
  (a.stmt.apply v m s).getVar m l =
    if l = a.receiver ∨ a.result = some l then .str (kept ++ a.text) else s.getVar m l
  := by
  obtain ⟨happly, hresult⟩ := apply_append a h
  rw [Append.stmt]
  cases hdst : a.result with
  | none =>
      rw [Option.elim_none, Stmt.apply, happly, Store.getVar_setVar]
      simp
  | some dst =>
      rw [Option.elim_some, Stmt.apply, Place.write, Expr.eval, Expr.apply, happly, hresult,
        Store.getVar_setVar, Store.getVar_setVar]
      grind

/-- A text that is no longer than another is an extension of it only if nothing was added. -/
theorem eq_append_iff {kept text more : String} (h : kept.length ≤ text.length) :
  kept = text ++ more ↔ kept = text ∧ more = ""
  := by
  constructor
  · rintro rfl
    rw [String.length_append] at h
    have hmore : more = "" := String.length_eq_zero_iff.1 (by omega)
    subst hmore
    use String.append_empty
  · rintro ⟨rfl, rfl⟩
    rw [String.append_empty]

theorem Tracks.append {holders : List Local} {current : Local → Bool} {text : String}
    (h : Tracks m s holders current text) {a : Append} (ha : a.receiver ∈ holders) :
  Tracks m (a.stmt.apply v m s) (a.holders holders) (a.current current) (text ++ a.text)
  := by
  obtain ⟨kept, hkept, hlength, hcurrent⟩ := h a.receiver ha
  intro l hl
  rw [getVar_append a hkept, Append.current, String.length_append]
  split
  · use kept ++ a.text, rfl
    constructor
    · rw [String.length_append]
      omega
    · rw [String.append_left_inj, hcurrent]
  · next hother =>
    -- A holder that is passed by keeps its text, and falls behind unless nothing was added.
    have hl : l ∈ holders := by
      rcases List.mem_append.1 hl with hresult | hl
      · exact absurd (.inr (Option.mem_toList.1 hresult)) hother
      · apply hl
    obtain ⟨kept', hkept', hlength', hcurrent'⟩ := h l hl
    use kept', hkept'
    constructor
    · omega
    · rw [eq_append_iff hlength', hcurrent', Bool.and_eq_true, decide_eq_true_eq]

theorem Tracks.appends {appends : List Append} {holders : List Local} {current : Local → Bool}
    {text : String} (h : Tracks m s holders current text)
    (happends : appendsToHolders holders appends) :
  Tracks m ((appends.map Append.stmt).foldl (Stmt.apply v m) s)
    (appends.foldl Append.holders holders) (appends.foldl Append.current current)
    (text ++ String.join (appends.map Append.text))
  := by
  induction appends generalizing s holders current text with
  | nil =>
      have htext : text ++ String.join [] = text := by simp
      rw [List.map_nil, List.map_nil, htext]
      apply h
  | cons a rest ih =>
      obtain ⟨ha, hrest⟩ := Bool.and_eq_true_iff.1 happends
      have htext : text ++ String.join ((a :: rest).map Append.text) =
          text ++ a.text ++ String.join (rest.map Append.text) := by
        rw [List.map_cons, String.join_cons, String.append_assoc]
      rw [htext]
      apply ih (h.append (of_decide_eq_true ha)) hrest

/-- A new builder holds its initial text. -/
theorem tracks_initial (b : Local) (initial : Option String) :
  Tracks m ((Stmt.invoke (call .special "<init>" .void b initial)).apply v m s)
    [b] (fun l => l = b) (initial.getD "")
  := by
  have hop : LibraryCall.ofInvoke? (call .special "<init>" .void b initial) = some .builderInit :=
    rfl
  have hcontent : (call .special "<init>" .void b initial).builderContent m s =
      .str (initial.getD "") := by
    cases initial with
    | none => rfl
    | some text => rfl
  intro l hl
  obtain rfl := List.mem_singleton.1 hl
  use initial.getD ""
  constructor
  · rw [Stmt.apply, Invoke.apply, Invoke.effect, hop, hcontent]
    simp [call]
  · simp

theorem getVar_toString {source target : Local} {kept : String}
    (h : s.getVar m source = .str kept) :
  ((Stmt.assign (.var target) (.invoke (call .virtual "toString" .string source none))).apply
    v m s).getVar m target = .str kept
  := by
  have hop : LibraryCall.ofInvoke? (call .virtual "toString" .string source none) =
      some .builderToString := rfl
  rw [Stmt.apply, Place.write, Store.getVar_setVar, if_pos ⟨rfl, rfl⟩, Expr.eval, Invoke.effect,
    hop]
  simp [Invoke.receiverValue, call, h, Value.onlyString]

/-- The target gets a text at most as long as that of the builder, and the same text exactly if no
append passed the source by. -/
theorem target_text_iff_isCurrent (v : View) (m : MethodSig) (s : Store) {u : Usage}
    (hu : u.isValid) :
  ∃ text, (u.stmts.foldl (Stmt.apply v m) s).getVar m u.target = .str text ∧
    text.length ≤ u.text.length ∧ (text = u.text ↔ u.isCurrent)
  := by
  obtain ⟨happends, hsource⟩ := Bool.and_eq_true_iff.1 hu
  have htracks := (tracks_initial (v := v) (m := m) (s := (Stmt.assign (.var u.builder)
    (.new .stringBuilder)).apply v m s) u.builder u.initial).appends (v := v) happends
  obtain ⟨kept, hkept, hlength, hcurrent⟩ := htracks u.source (of_decide_eq_true hsource)
  use kept
  constructor
  · rw [Usage.stmts, List.foldl_cons, List.foldl_cons, List.foldl_append]
    apply getVar_toString hkept
  · use hlength
    apply hcurrent

/-! ### An append that passes a local by -/

namespace Chain

def method : MethodSig := ⟨⟨"A"⟩, "main", [], .void⟩
def first : Local := ⟨"b", .object .stringBuilder⟩
def second : Local := ⟨"c", .object .stringBuilder⟩

/-- The second append goes to the result of the first one. -/
def usage (source : Local) : Usage where
  builder := first
  initial := none
  appends := [⟨first, "a", some second⟩, ⟨second, "b", none⟩]
  source := source
  target := ⟨"s", .string⟩

/-- The first local was passed by, and keeps the text before the second append. -/
theorem target_text_of_first :
  (usage first).isValid ∧ (usage first).text = "ab" ∧
  ((usage first).stmts.foldl (Stmt.apply (.ofList []) method) .empty).getVar method
    ⟨"s", .string⟩ = .str "a"
  := by
  decide

/-- The second local has seen all appends. -/
theorem target_text_of_second :
  (usage second).isValid ∧ (usage second).isCurrent ∧
  ((usage second).stmts.foldl (Stmt.apply (.ofList []) method) .empty).getVar method
    ⟨"s", .string⟩ = .str (usage second).text
  := by
  have hvalid : (usage second).isValid := by decide
  have hcurrent : (usage second).isCurrent := by decide
  obtain ⟨text, htarget, _, htext⟩ :=
    target_text_iff_isCurrent (.ofList []) method .empty hvalid
  use hvalid, hcurrent
  rw [← htext.2 hcurrent]
  apply htarget

end Chain

end ServiceFlow.Builder
