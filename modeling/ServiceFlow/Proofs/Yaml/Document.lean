import ServiceFlow.Proofs.Yaml.Token

/-!
# Documents are read back

A mapping whose keys are names and whose texts fit their styles is read back as it was written.
Its text has the tokens of the document, and the tokens have its nodes.
-/

namespace ServiceFlow.Yaml

open Lexer (IsKey)

namespace Document

/-- The document is read back: its keys are names, its texts fit their styles, and no mapping is
empty. -/
inductive Readable : Document → Prop
  | scalar {style : ScalarStyle} {text : String} (hfits : style.Fits text.toList) :
    Readable (.scalar style text)
  | map {members : List (String × Document)} (hne : members ≠ [])
    (hkeys : ∀ m ∈ members, IsKey m.1.toList) (hvalues : ∀ m ∈ members, m.2.Readable) :
    Readable (.map members)

mutual

/-- The tokens of a document. -/
def tokens : Document → List Token
  | .scalar style text => [.scalar style text]
  | .map members => .blockMapStart :: memberTokens members ++ [.blockEnd]

def memberTokens : List (String × Document) → List Token
  | [] => []
  | (key, d) :: rest => .key :: .scalar .plain key :: .value :: tokens d ++ memberTokens rest

end

end Document

/-! ### From the text to the tokens -/

/-- A line begins with a name, or the text ends. -/
def StartsLine (rest : List Char) : Prop := ∀ ch ∈ rest.head?, IsNameChar ch

variable {rest : List Char} {level n : Nat} {d : Document}

theorem StartsLine.resumes (h : StartsLine rest) :
  Resumes rest
  := fun ch hch => (h ch hch).isSpace

theorem StartsLine.beginsToken (h : StartsLine rest) :
  BeginsToken rest
  := fun ch hch => ⟨(h ch hch).isSpace, (h ch hch).ne rfl, (h ch hch).ne rfl⟩

theorem startsLine_key {key : List Char} (hkey : IsKey key) (rest : List Char) :
  StartsLine (key ++ rest)
  := by
  obtain ⟨ch, key, rfl⟩ := List.exists_cons_of_ne_nil hkey.ne_nil
  intro d hd
  obtain rfl := Option.some.inj hd
  apply hkey.chars _ List.mem_cons_self

namespace Document

/-- Behind its key the document is read as its tokens.  Mappings that end with it are still open at
the start of the next line. -/
def Scans (d : Document) : Prop :=
  ∀ ⦃l : Lexer⦄ ⦃ts : List Token⦄ ⦃level n : Nat⦄ ⦃rest : List Char⦄,
    l.AtBody ts (level + 1) (body (level + 1) d ++ (indentation n ++ rest)) → n ≤ level →
    StartsLine rest →
    ∃ l' ts' depth, Lexer.Advances (body (level + 1) d).length l l' ∧
      l'.AtLine ts' depth n rest ∧ level + 1 ≤ depth ∧
      ts' ++ List.replicate (depth - (level + 1)) .blockEnd = ts ++ d.tokens

theorem scans_scalar {style : ScalarStyle} {text : String} (hfits : style.Fits text.toList) :
  (scalar style text).Scans
  := by
  intro l ts level n rest h hn hrest
  obtain ⟨l', hadvances, hl'⟩ := h.advances_scalar hfits hrest.resumes hn
  rw [String.ofList_toList] at hl'
  refine ⟨l', _, level + 1, hadvances.mono ?_, hl', Nat.le_refl _, ?_⟩
  · rw [body, List.length_cons]
    omega
  · rw [Nat.sub_self, List.replicate_zero, List.append_nil, tokens]

/-- The members of a mapping, from the first key on. -/
theorem scans_members {members : List (String × Document)} {key : String} {l : Lexer}
    {ts : List Token} {depth : Nat} (hkey : IsKey key.toList)
    (hkeys : ∀ m ∈ members, IsKey m.1.toList) (hd : d.Scans) (hscans : ∀ m ∈ members, m.2.Scans)
    (h : l.AtLine ts depth level (key.toList ++ ':' ::
      (body (level + 1) d ++ (memberTexts level members ++ (indentation n ++ rest)))))
    (hdepth : level ≤ depth) (hn : n ≤ level) (hrest : StartsLine rest) :
  ∃ l' ts' depth', Lexer.Advances
      (key.toList.length + 1 + (body (level + 1) d).length + (memberTexts level members).length)
      l l' ∧
    l'.AtLine ts' depth' n rest ∧ level + 1 ≤ depth' ∧
    ts' ++ List.replicate (depth' - (level + 1)) .blockEnd =
      ts ++ Lexer.lineTokens depth level ++ memberTokens ((key, d) :: members)
  := by
  have hbody : ∀ after, spaceAhead (body (level + 1) d ++ after) := by
    cases d <;> intro after <;> rfl
  induction members generalizing key d l ts depth with
  | nil =>
      obtain ⟨l', hadvances, hl'⟩ := h.advances_key hdepth hkey (hbody _)
      obtain ⟨l'', ts'', depth'', hadvances', hl'', hdepth'', htokens⟩ := hd hl' hn hrest
      refine ⟨l'', ts'', depth'', (hadvances.trans hadvances').mono ?_, hl'', hdepth'', ?_⟩
      · omega
      · rw [htokens, String.ofList_toList]
        simp [memberTokens]
  | cons m members ih =>
      obtain ⟨key', d'⟩ := m
      obtain ⟨hkey', hkeys⟩ := List.forall_mem_cons.1 hkeys
      obtain ⟨hd', hscans⟩ := List.forall_mem_cons.1 hscans
      obtain ⟨l', hadvances, hl'⟩ := h.advances_key hdepth hkey (hbody _)
      -- The next member begins a line of the same level.
      have hline : memberTexts level ((key', d') :: members) ++ (indentation n ++ rest) =
          indentation level ++ (key'.toList ++ ':' :: (body (level + 1) d' ++
            (memberTexts level members ++ (indentation n ++ rest)))) := by
        simp [memberTexts]
      rw [hline] at hl'
      obtain ⟨l'', ts'', depth'', hadvances', hl'', hdepth'', htokens⟩ :=
        hd hl' (Nat.le_refl level) (startsLine_key hkey' _)
      obtain ⟨l₃, ts₃, depth₃, hadvances₃, hl₃, hdepth₃, htokens₃⟩ :=
        ih hkey' hkeys hd' hscans hl'' (by omega) (by cases d' <;> intro after <;> rfl)
      have hopen : Lexer.lineTokens depth'' level =
          List.replicate (depth'' - (level + 1)) .blockEnd := by
        rw [Lexer.lineTokens, if_neg (by omega), List.append_nil]
      refine ⟨l₃, ts₃, depth₃, (hadvances.trans (hadvances'.trans hadvances₃)).mono ?_, hl₃,
        hdepth₃, ?_⟩
      · simp only [memberTexts, List.length_append, List.length_cons]
        omega
      · rw [htokens₃, hopen, htokens, String.ofList_toList]
        simp [memberTokens]

theorem scans_map {members : List (String × Document)} (hne : members ≠ [])
    (hkeys : ∀ m ∈ members, IsKey m.1.toList) (hscans : ∀ m ∈ members, m.2.Scans) :
  (map members).Scans
  := by
  intro l ts level n rest h hn hrest
  obtain ⟨⟨key, d⟩, members, rfl⟩ := List.exists_cons_of_ne_nil hne
  obtain ⟨hkey, hkeys⟩ := List.forall_mem_cons.1 hkeys
  obtain ⟨hd, hscans⟩ := List.forall_mem_cons.1 hscans
  have hline : l.AtLine ts (level + 1) (level + 1) (key.toList ++ ':' ::
      (body (level + 2) d ++ (memberTexts (level + 1) members ++ (indentation n ++ rest)))) := by
    refine ⟨h.toHolds, .inr ⟨l.cursor.column, ?_, rfl⟩⟩
    rw [h.rest]
    simp [body, memberTexts, indentation]
  obtain ⟨l', ts', depth', hadvances, hl', hdepth', htokens⟩ :=
    scans_members hkey hkeys hd hscans hline (Nat.le_refl _) (Nat.le_succ_of_le hn) hrest
  refine ⟨l', ts', depth', hadvances.mono ?_, hl', Nat.le_of_succ_le hdepth', ?_⟩
  · simp only [body, memberTexts, List.length_append, List.length_cons]
    omega
  · rw [show depth' - (level + 1) = depth' - (level + 1 + 1) + 1 by omega, List.replicate_succ',
      ← List.append_assoc, htokens]
    simp [Lexer.lineTokens, tokens]

theorem Readable.scans (h : d.Readable) :
  d.Scans
  := by
  induction h with
  | scalar hfits => apply scans_scalar hfits
  | map hne hkeys _ ih => apply scans_map hne hkeys ih

/-- The text of a mapping has the tokens of the mapping. -/
theorem run_memberTexts {members : List (String × Document)} (h : (map members).Readable) :
  Lexer.run ((memberTexts 0 members).length + 1) { cursor := { rest := memberTexts 0 members } } =
    some (map members).tokens
  := by
  cases h with
  | map hne hkeys hvalues =>
      obtain ⟨⟨key, d⟩, members, rfl⟩ := List.exists_cons_of_ne_nil hne
      obtain ⟨hkey, hkeys⟩ := List.forall_mem_cons.1 hkeys
      obtain ⟨hd, hvalues⟩ := List.forall_mem_cons.1 hvalues
      have hstart : Lexer.AtLine { cursor := { rest := memberTexts 0 ((key, d) :: members) } }
          [] 0 0 (key.toList ++ ':' :: (body 1 d ++ (memberTexts 0 members ++
            (indentation 0 ++ [])))) := by
        refine ⟨⟨rfl, rfl, rfl⟩, .inl ⟨rfl, ?_, rfl⟩⟩
        simp [memberTexts, indentation]
      have hend : StartsLine [] := by simp [StartsLine]
      obtain ⟨l, ts, depth, ⟨k, hk, hrun⟩, hl, hdepth, htokens⟩ := scans_members hkey hkeys
        hd.scans (fun m hm => (hvalues m hm).scans) hstart (Nat.le_refl 0) (Nat.le_refl 0) hend
      obtain ⟨p, hprepare, hcursor, -, hholds⟩ := hl.prepare hend.beginsToken
      obtain ⟨fuel, hfuel⟩ : ∃ fuel,
          (memberTexts 0 ((key, d) :: members)).length + 1 = fuel + 1 + k := by
        refine ⟨(memberTexts 0 ((key, d) :: members)).length - k, ?_⟩
        simp only [memberTexts, List.length_append, List.length_cons] at hk ⊢
        omega
      rw [hfuel, hrun, Lexer.run_of_end hprepare hcursor.rest hholds, Nat.min_eq_right hdepth,
        htokens]
      simp [Lexer.lineTokens, tokens]

/-! ### From the tokens to the nodes -/

variable {handles : Handles} {anchors : Anchors} {unindented : Bool} {fuel : Nat} {ts : List Token}

theorem read_scalar (style : ScalarStyle) (text : String) :
  Node.read handles true unindented (fuel + 1) anchors (.scalar style text :: ts) =
    some (.scalar style none text, anchors, ts)
  := by
  simp [Node.read, Node.properties?]

theorem read_map :
  Node.read handles true unindented (fuel + 1) anchors (.blockMapStart :: ts) =
    (Node.blockMembers handles fuel anchors ts).map (fun r => (.map r.1, r.2))
  := by
  cases hmembers : Node.blockMembers handles fuel anchors ts <;>
    simp [Node.read, Node.properties?, hmembers]

/-- The document is read from its tokens. -/
def Parses (d : Document) : Prop :=
  ∀ ⦃handles : Handles⦄ ⦃unindented : Bool⦄ ⦃fuel : Nat⦄ ⦃anchors : Anchors⦄ ⦃ts : List Token⦄,
    2 * d.tokens.length ≤ fuel →
    Node.read handles true unindented fuel anchors (d.tokens ++ ts) = some (d.toNode, anchors, ts)

theorem parses_scalar (style : ScalarStyle) (text : String) :
  (scalar style text).Parses
  := by
  intro handles unindented fuel anchors ts hfuel
  obtain ⟨fuel, rfl⟩ : ∃ k, fuel = k + 1 := ⟨fuel - 1, by
    simp only [tokens, List.length_singleton] at hfuel
    omega⟩
  apply read_scalar

theorem blockItem_tokens (hd : d.Parses) (hfuel : 2 * d.tokens.length < fuel) :
  Node.blockItem handles fuel anchors (d.tokens ++ ts) = some (d.toNode, anchors, ts)
  := by
  obtain ⟨fuel, rfl⟩ : ∃ k, fuel = k + 1 := ⟨fuel - 1, by omega⟩
  have hread : Node.read handles true true fuel anchors (d.tokens ++ ts) = _ :=
    hd (Nat.le_of_lt_succ hfuel)
  cases d with
  | scalar style text => simpa [tokens, Node.blockItem, Node.endsBlockItem] using hread
  | map members => simpa [tokens, Node.blockItem, Node.endsBlockItem] using hread

theorem blockMembers_tokens {members : List (String × Document)}
    (hmembers : ∀ m ∈ members, m.2.Parses) (hfuel : 2 * (memberTokens members).length < fuel) :
  Node.blockMembers handles fuel anchors (memberTokens members ++ .blockEnd :: ts) =
    some (memberNodes members, anchors, ts)
  := by
  induction members generalizing fuel with
  | nil =>
      obtain ⟨fuel, rfl⟩ : ∃ k, fuel = k + 1 := ⟨fuel - 1, by omega⟩
      simp [memberTokens, Node.blockMembers, memberNodes]
  | cons m members ih =>
      obtain ⟨key, d⟩ := m
      have hd : d.Parses := hmembers (key, d) List.mem_cons_self
      simp only [memberTokens, List.length_append, List.length_cons] at hfuel
      obtain ⟨fuel, rfl⟩ : ∃ k, fuel = k + 2 := ⟨fuel - 2, by omega⟩
      have hkey (rest : List Token) : Node.blockItem handles (fuel + 1) anchors
          (.scalar .plain key :: rest) = some (.scalar .plain none key, anchors, rest) := by
        apply blockItem_tokens (parses_scalar .plain key)
        simp only [tokens, List.length_singleton]
        omega
      have hvalue (rest : List Token) : Node.blockValue handles (fuel + 1) anchors
          (.value :: (d.tokens ++ rest)) = some (d.toNode, anchors, rest) := by
        rw [Node.blockValue]
        apply blockItem_tokens hd
        omega
      have hrest : Node.blockMembers handles (fuel + 1) anchors
          (memberTokens members ++ .blockEnd :: ts) = _ :=
        ih (fun m hm => hmembers m (List.mem_cons_of_mem _ hm)) (by omega)
      simp [memberTokens, Node.blockMembers, hkey, hvalue, hrest, memberNodes]

theorem Readable.parses (h : d.Readable) :
  d.Parses
  := by
  induction h with
  | scalar _ => apply parses_scalar
  | @map members _ _ _ ih =>
      intro handles unindented fuel anchors ts hfuel
      simp only [tokens, List.length_append, List.length_cons, List.length_nil] at hfuel
      obtain ⟨fuel, rfl⟩ : ∃ k, fuel = k + 1 := ⟨fuel - 1, by omega⟩
      have hmembers : Node.blockMembers handles fuel anchors
          (memberTokens members ++ .blockEnd :: ts) = _ := blockMembers_tokens ih (by omega)
      simp [tokens, read_map, hmembers, toNode]

theorem ofTokens?_tokens {members : List (String × Document)} (h : (map members).Readable) :
  Tree.ofTokens? (map members).tokens = some (map members).toTree
  := by
  have hread : Node.read Handles.default true false (4 * (map members).tokens.length + 4) {}
      ((map members).tokens ++ []) = _ := h.parses (by omega)
  have hroot : Node.root? Handles.default (map members).tokens =
      some ((map members).toTree, []) := by
    rw [List.append_nil] at hread
    rw [Node.root?, hread]
    rfl
  rw [tokens, List.cons_append] at hroot ⊢
  simp [Tree.ofTokens?, hroot]

end Document

/-! ### Characters -/

theorem isPrintable_indentation (level : Nat) :
  ∀ c ∈ Document.indentation level, isPrintable c
  := by
  intro c hc
  rw [List.eq_of_mem_replicate hc]
  rfl

/-- A scalar is written with characters that need not be escaped. -/
theorem isPrintable_scalarText {style : ScalarStyle} {cs : List Char} (hcs : style.Fits cs)
    (level : Nat) :
  ∀ c ∈ scalarText (Document.indentation level) style cs, isPrintable c
  := by
  have hpre := isPrintable_indentation level
  have hlines : ∀ {ds : List Char} {start : Bool}, (∀ d ∈ ds, isPrintable d) →
      ∀ c ∈ indentLines (Document.indentation level) start ds, isPrintable c := by
    intro ds start hds c hc
    exact (mem_of_mem_indentLines hc).elim (hpre c) (hds c)
  have hnil : ∀ c ∈ ([] : List Char), isPrintable c := List.forall_mem_nil _
  cases style with
  | plain =>
      have hplain : IsPlain cs := hcs
      simp only [scalarText, List.forall_mem_append, List.forall_mem_cons]
      exact ⟨fun c hc => (hplain.chars c hc).1, rfl, hnil⟩
  | singleQuoted =>
      have hsingle : SingleText cs := hcs
      have hbody : ∀ c ∈ indentLines (Document.indentation level) false (doubled cs),
          isPrintable c :=
        hlines (fun c hc => (hsingle.chars c (mem_of_mem_doubled hc)).1)
      have hclosing : ∀ c ∈ if cs.getLast?.elim false isBreak then Document.indentation level
          else [], isPrintable c := by
        split
        · apply hpre
        · apply hnil
      simp only [scalarText, singleQuotedText, List.forall_mem_append, List.forall_mem_cons]
      exact ⟨⟨⟨⟨rfl, hbody⟩, hclosing⟩, rfl, hnil⟩, rfl, hnil⟩
  | doubleQuoted =>
      have hbody : ∀ c ∈ cs.flatMap escapedText, isPrintable c := by
        intro c hc
        obtain ⟨d, -, hd⟩ := List.mem_flatMap.1 hc
        apply isPrintable_escapedText d c hd
      simp only [scalarText, List.forall_mem_append, List.forall_mem_cons]
      exact ⟨⟨rfl, hbody⟩, rfl, rfl, hnil⟩
  | literal =>
      have hclosing := (wholeLines_closing hcs.1).chars
      rw [List.forall_mem_append] at hclosing
      simp only [scalarText, List.forall_mem_append, List.forall_mem_cons]
      exact ⟨⟨⟨rfl, isPrintable_literalMarks cs⟩, rfl, hlines hclosing.1⟩, hclosing.2⟩
  | folded => cases hcs

namespace Document

theorem isPrintable_memberTexts {members : List (String × Document)}
    (hkeys : ∀ m ∈ members, IsKey m.1.toList)
    (hvalues : ∀ m ∈ members, ∀ level, ∀ c ∈ body level m.2, isPrintable c) (level : Nat) :
  ∀ c ∈ memberTexts level members, isPrintable c
  := by
  induction members with
  | nil => apply List.forall_mem_nil
  | cons m members ih =>
      obtain ⟨hkey, hkeys⟩ := List.forall_mem_cons.1 hkeys
      obtain ⟨hvalue, hvalues⟩ := List.forall_mem_cons.1 hvalues
      simp only [memberTexts, List.forall_mem_append, List.forall_mem_cons]
      exact ⟨⟨⟨isPrintable_indentation level, fun c hc => (hkey.chars c hc).isPrintable⟩, rfl,
        hvalue (level + 1)⟩, ih hkeys hvalues⟩

theorem Readable.isPrintable_body (h : d.Readable) :
  ∀ level, ∀ c ∈ body level d, isPrintable c
  := by
  induction h with
  | scalar hfits =>
      intro level
      exact List.forall_mem_cons.2 ⟨rfl, isPrintable_scalarText hfits level⟩
  | map _ hkeys _ ih =>
      intro level
      exact List.forall_mem_cons.2 ⟨rfl, isPrintable_memberTexts hkeys ih level⟩

/-- A mapping is read back from its text. -/
theorem parse?_render {members : List (String × Document)} (h : (map members).Readable) :
  Tree.parse? (map members).render = some (map members).toTree
  := by
  have hallowed : (memberTexts 0 members).all isAllowed := by
    rw [List.all_eq_true]
    intro c hc
    apply isAllowed_of_isPrintable (h.isPrintable_body 0 c (List.mem_cons_of_mem _ hc))
  rw [Tree.parse?, Token.scan?, render, String.toList_ofList, if_pos hallowed, run_memberTexts h,
    Option.bind_some, ofTokens?_tokens h]

end Document

end ServiceFlow.Yaml
