import ServiceFlow.Proofs.Yaml.Escape
import ServiceFlow.Proofs.Yaml.Literal
import ServiceFlow.Proofs.Yaml.SingleQuoted

/-!
# Tokens of written mappings

The lexer goes over a mapping line by line.  At the start of a line it closes the blocks that are
indented further; at a colon it opens a block if the key is indented further than the last one.
-/

namespace ServiceFlow.Yaml

/-! ### Open blocks -/

/-- The indentations of so many mappings inside each other, the innermost first. -/
def blocks : Nat → List Int
  | 0 => [-1]
  | depth + 1 => 2 * (depth : Int) :: blocks depth

theorem exists_blocks (depth : Nat) :
  ∃ indent outer, indent :: outer = blocks depth
  := by
  cases depth with
  | zero => exact ⟨-1, [], rfl⟩
  | succ depth => exact ⟨_, _, rfl⟩

namespace Lexer

variable {l : Lexer} {ts : List Token} {depth : Nat}

theorem closeBlocks_of_le {column indent : Int} (h : indent ≤ column) (outer : List Int)
    (tokens : Array Token) :
  closeBlocks column outer indent tokens = (outer, indent, tokens)
  := by
  cases outer with
  | nil => rfl
  | cons i outer => rw [closeBlocks, if_neg (Int.not_lt.2 h)]

/-- Of the open mappings those are closed that begin behind the column. -/
theorem closeBlocks_blocks {column indent : Int} {m : Nat} {outer : List Int}
    (hm : ∀ i : Nat, 2 * (i : Int) ≤ column ↔ i < m) (h : indent :: outer = blocks depth)
    (ts : List Token) :
  ∃ indent' outer', closeBlocks column outer indent ts.toArray =
      (outer', indent', (ts ++ List.replicate (depth - m) Token.blockEnd).toArray) ∧
    indent' :: outer' = blocks (min depth m)
  := by
  induction depth generalizing indent outer ts with
  | zero =>
      obtain ⟨rfl, rfl⟩ := List.cons_eq_cons.1 h
      refine ⟨-1, [], ?_, ?_⟩
      · rw [closeBlocks, Nat.zero_sub, List.replicate_zero, List.append_nil]
      · rw [Nat.zero_min, blocks]
  | succ depth ih =>
      obtain ⟨rfl, rfl⟩ := List.cons_eq_cons.1 h
      by_cases hlt : depth < m
      · refine ⟨2 * depth, blocks depth, ?_, ?_⟩
        · rw [closeBlocks_of_le ((hm depth).2 hlt), Nat.sub_eq_zero_of_le hlt, List.replicate_zero,
            List.append_nil]
        · rw [Nat.min_eq_left hlt, blocks]
      · obtain ⟨i, outer, houter⟩ := exists_blocks depth
        obtain ⟨indent', outer', hclose, hrest⟩ := ih houter (ts ++ [.blockEnd])
        have hbehind : column < 2 * (depth : Int) :=
          Int.lt_of_not_ge (fun hle => hlt ((hm depth).1 hle))
        have hm' : m ≤ depth := Nat.le_of_not_lt hlt
        refine ⟨indent', outer', ?_, ?_⟩
        · rw [← houter, closeBlocks, if_pos hbehind, List.push_toArray, hclose,
            Nat.succ_sub hm', List.replicate_succ, List.append_assoc, List.singleton_append]
        · rw [hrest, Nat.min_eq_right hm', Nat.min_eq_right (Nat.le_succ_of_le hm')]

/-- The lexer has read the tokens, so many mappings are open, and no key is possible. -/
structure Holds (l : Lexer) (ts : List Token) (depth : Nat) : Prop where
  tokens : l.tokens = ts.toArray
  blocks : l.indent :: l.outer = blocks depth
  keys : l.keys = [none]

theorem Holds.inFlow (h : l.Holds ts depth) :
  l.inFlow = false
  := by
  rw [Lexer.inFlow, h.keys]
  rfl

theorem Holds.unroll {column : Int} {m : Nat} (h : l.Holds ts depth)
    (hm : ∀ i : Nat, 2 * (i : Int) ≤ column ↔ i < m) :
  (l.unroll column).Holds (ts ++ List.replicate (depth - m) .blockEnd) (min depth m)
  := by
  obtain ⟨indent, outer, hclose, hblocks⟩ := closeBlocks_blocks hm h.blocks ts
  rw [Lexer.unroll, if_neg (by simp [h.inFlow]), h.tokens, hclose]
  exact ⟨rfl, hblocks, h.keys⟩

theorem unroll_of_le {column : Int} (h : l.indent ≤ column) :
  l.unroll column = l
  := by
  rw [Lexer.unroll, closeBlocks_of_le h]
  split <;> rfl

theorem cursor_unroll (l : Lexer) (column : Int) :
  (l.unroll column).cursor = l.cursor
  := by
  rw [Lexer.unroll]
  split <;> rfl

theorem keyAllowed_unroll (l : Lexer) (column : Int) :
  (l.unroll column).keyAllowed = l.keyAllowed
  := by
  rw [Lexer.unroll]
  split <;> rfl

end Lexer

/-! ### Space in front of a token -/

/-- A token begins here, or the text ends. -/
def BeginsToken (rest : List Char) : Prop :=
  ∀ ch ∈ rest.head?, isSpace ch = false ∧ ch ≠ '#' ∧ ch ≠ '\ufeff'

namespace Lexer

variable {l : Lexer} {ts : List Token} {depth level column n : Nat} {rest : List Char}

/-- The end of the blanks and of a comment in front of a token or of the end of a line. -/
def gapEnd (l : Lexer) : Cursor :=
  (l.cursor.skipMark.skipWhile
    (fun ch => ch = ' ' || ((l.inFlow || !l.keyAllowed) && ch = '\t'))).skipComment

theorem skipSpace_succ (l : Lexer) (fuel : Nat) :
  l.skipSpace (fuel + 1) =
    l.gapEnd.break?.elim { l with cursor := l.gapEnd }
      (fun r => skipSpace fuel { l with cursor := r.2, keyAllowed := l.keyAllowed || !l.inFlow })
  := by
  rw [skipSpace, gapEnd]
  generalize Cursor.skipComment _ = c
  cases c.break? <;> rfl

theorem gapEnd_of_beginsToken (h : BeginsToken l.cursor.rest) :
  l.gapEnd = l.cursor
  := by
  have hmark : l.cursor.skipMark = l.cursor := by
    apply Cursor.skipMark_of_head?
    intro hhead
    exact (h _ hhead).2.2 rfl
  have hcomment : l.cursor.skipComment = l.cursor := by
    apply Cursor.skipComment_of_head?
    intro hhead
    exact (h _ hhead).2.1 rfl
  rw [gapEnd, hmark, Cursor.skipWhile_of_head?, hcomment]
  intro ch hch
  have hblank := isBlank_of_not_isSpace (h ch hch).1
  simp only [isBlank, Bool.or_eq_false_iff] at hblank
  simp [hblank]

theorem gapEnd_spaces (h : l.cursor.At (List.replicate n ' ' ++ rest) column)
    (hrest : ∀ ch ∈ rest.head?, isBlank ch = false ∧ ch ≠ '#' ∧ ch ≠ '\ufeff') :
  l.gapEnd.At rest (column + n)
  := by
  have hmark : l.cursor.skipMark = l.cursor := by
    apply Cursor.skipMark_of_head?
    rw [h.rest]
    cases n with
    | zero =>
        intro hhead
        exact (hrest _ hhead).2.2 rfl
    | succ n => simp [List.replicate_succ]
  have hskip := h.skipWhile (p := fun ch => ch = ' ' || ((l.inFlow || !l.keyAllowed) && ch = '\t'))
    (by
      intro ch hch
      rw [List.eq_of_mem_replicate hch]
      rfl)
    (by
      intro ch hch
      have hblank := (hrest ch hch).1
      simp only [isBlank, Bool.or_eq_false_iff] at hblank
      simp [hblank])
  rw [List.length_replicate] at hskip
  rw [gapEnd, hmark, Cursor.skipComment_of_head?]
  · apply hskip
  · rw [hskip.rest]
    intro hhead
    exact (hrest _ hhead).2.1 rfl

theorem skipSpace_of_beginsToken (h : BeginsToken l.cursor.rest) (fuel : Nat) :
  l.skipSpace (fuel + 1) = l
  := by
  have hbreak : l.cursor.break? = none :=
    Cursor.At.break?_eq_none ⟨rfl, rfl⟩ (fun ch hch => isBreak_of_not_isSpace (h ch hch).1)
  rw [skipSpace_succ, gapEnd_of_beginsToken h, hbreak]
  rfl

theorem skipSpace_spaces (h : l.cursor.At (List.replicate n ' ' ++ rest) column)
    (hrest : BeginsToken rest) (fuel : Nat) :
  ∃ c, l.skipSpace (fuel + 1) = { l with cursor := c } ∧ c.At rest (column + n)
  := by
  have hend := gapEnd_spaces h
    (fun ch hch => ⟨isBlank_of_not_isSpace (hrest ch hch).1, (hrest ch hch).2⟩)
  refine ⟨l.gapEnd, ?_, hend⟩
  rw [skipSpace_succ, hend.break?_eq_none (fun ch hch => isBreak_of_not_isSpace (hrest ch hch).1)]
  rfl

/-- The end of a line and the indentation of the next one. -/
theorem skipSpace_line (h : l.cursor.At ('\n' :: (List.replicate n ' ' ++ rest)) column)
    (hflow : l.inFlow = false) (hrest : BeginsToken rest) (fuel : Nat) :
  ∃ c, l.skipSpace (fuel + 2) = { l with cursor := c, keyAllowed := true } ∧ c.At rest n
  := by
  have hend := gapEnd_spaces (n := 0) h (by simp [isBlank])
  obtain ⟨next, hbreak, hnext⟩ := hend.break? rfl
  obtain ⟨c, hskip, hc⟩ := skipSpace_spaces
    (l := { l with cursor := next, keyAllowed := l.keyAllowed || !l.inFlow }) hnext hrest fuel
  rw [Nat.zero_add] at hc
  refine ⟨c, ?_, hc⟩
  rw [skipSpace_succ, hbreak, Option.elim_some, hskip, hflow, Bool.not_false, Bool.or_true]

/-! ### Steps -/

/-- The lexer in front of its next token. -/
def prepare (l : Lexer) : Option Lexer :=
  (l.skipSpace (l.cursor.rest.length + 1)).dropStaleKeys.map (fun l => l.unroll l.cursor.column)

theorem run_of_next {p l' : Lexer} {ch : Char} (hp : l.prepare = some p)
    (hrest : p.cursor.rest = ch :: rest) (hnext : p.next ch rest = some l') (fuel : Nat) :
  run (fuel + 1) l = run fuel l'
  := by
  obtain ⟨q, hq, rfl⟩ := Option.map_eq_some_iff.1 hp
  rw [run, hq]
  simp only [Option.bind_eq_bind, Option.bind_some]
  rw [hrest]
  simp only [hnext, Option.bind_some]

/-- At the end of the text all blocks are closed. -/
theorem run_of_end {p : Lexer} (hp : l.prepare = some p) (hrest : p.cursor.rest = [])
    (h : p.Holds ts depth) (fuel : Nat) :
  run (fuel + 1) l = some (ts ++ List.replicate depth .blockEnd)
  := by
  have hclosed : (p.unroll (-1)).Holds _ _ := h.unroll (m := 0) (by omega)
  obtain ⟨q, hq, rfl⟩ := Option.map_eq_some_iff.1 hp
  rw [run, hq]
  simp only [Option.bind_eq_bind, Option.bind_some]
  rw [hrest]
  simp [dropKey, hclosed.keys, giveUp, hclosed.tokens]

/-- The lexer comes from one state to another within so many steps. -/
def Advances (steps : Nat) (l l' : Lexer) : Prop :=
  ∃ n ≤ steps, ∀ fuel, run (fuel + n) l = run fuel l'

theorem Advances.trans {a b : Nat} {l' l'' : Lexer} (h : Advances a l l') (h' : Advances b l' l'') :
  Advances (a + b) l l''
  := by
  obtain ⟨n, hn, hrun⟩ := h
  obtain ⟨n', hn', hrun'⟩ := h'
  refine ⟨n' + n, by omega, ?_⟩
  intro fuel
  rw [← Nat.add_assoc, hrun, hrun']

theorem Advances.mono {a b : Nat} {l' : Lexer} (h : Advances a l l') (hle : a ≤ b) :
  Advances b l l'
  := by
  obtain ⟨n, hn, hrun⟩ := h
  exact ⟨n, Nat.le_trans hn hle, hrun⟩

/-- A possible key that is not too old is kept. -/
theorem dropStaleKeys_eq {key : Option KeyPlace} (hkeys : l.keys = [key])
    (hkey : key.elim false (isStale l.cursor) = false) :
  l.dropStaleKeys = some l
  := by
  cases l
  subst hkeys
  simp [dropStaleKeys, hkey]

/-- The lexer stands in front of the line with the given text behind its indentation. -/
structure AtLine (l : Lexer) (ts : List Token) (depth level : Nat) (rest : List Char) : Prop
    extends l.Holds ts depth where
  place : (l.keyAllowed ∧ l.cursor.At rest (2 * level)) ∨
    ∃ column, l.cursor.At ('\n' :: (List.replicate (2 * level) ' ' ++ rest)) column

/-- At the start of a line the mappings are closed that are indented further. -/
theorem AtLine.prepare (h : l.AtLine ts depth level rest) (hrest : BeginsToken rest) :
  ∃ p, l.prepare = some p ∧ p.cursor.At rest (2 * level) ∧ p.keyAllowed ∧
    p.Holds (ts ++ List.replicate (depth - (level + 1)) .blockEnd) (min depth (level + 1))
  := by
  obtain ⟨c, hskip, hc⟩ : ∃ c, l.skipSpace (l.cursor.rest.length + 1) =
      { l with cursor := c, keyAllowed := true } ∧ c.At rest (2 * level) := by
    rcases h.place with ⟨hallowed, hcursor⟩ | ⟨column, hcursor⟩
    · refine ⟨l.cursor, ?_, hcursor⟩
      rw [skipSpace_of_beginsToken (hcursor.rest ▸ hrest), ← hallowed]
    · rw [hcursor.rest, List.length_cons]
      apply skipSpace_line hcursor h.inFlow hrest
  have hholds : Holds { l with cursor := c, keyAllowed := true } ts depth :=
    ⟨h.tokens, h.blocks, h.keys⟩
  refine ⟨unroll { l with cursor := c, keyAllowed := true } c.column, ?_, ?_, ?_, ?_⟩
  · rw [Lexer.prepare, hskip, dropStaleKeys_eq hholds.keys rfl, Option.map_some]
  · rw [cursor_unroll]
    apply hc
  · rw [keyAllowed_unroll]
  · apply hholds.unroll
    intro i
    rw [hc.column]
    omega

/-! ### Keys -/

/-- A plain scalar begins where no indicator does. -/
theorem next_plain {ch : Char} (hflow : l.inFlow = false) (hmarker : l.cursor.atMarker = false)
    (hspace : isSpace ch = false) (hstart : indicatesAtStart ch rest = false) :
  l.next ch rest = l.plainScalar
  := by
  obtain ⟨hchars, hahead⟩ : _ ∧ _ := by
    simpa [indicatesAtStart, String.contains_char_eq] using hstart
  by_cases hmark : ch = '?' ∨ ch = ':' ∨ ch = '-'
  · have hspaced := hahead hmark
    have hblank : rest.head?.elim false isBlank = false := by
      cases rest with
      | nil => rfl
      | cons d rest => exact isBlank_of_not_isSpace hspaced
    rcases hmark with rfl | rfl | rfl
    · simp [next, plainAhead, hflow, hmarker, hspaced]
    · simp [next, plainAhead, hflow, hmarker, hspaced]
    · simp [next, plainAhead, hflow, hmarker, hspaced, hblank]
  · simp only [not_or] at hmark
    simp [next, plainAhead, hflow, hmarker, hspace, isIndicator, String.contains_char_eq, hchars,
      hmark]

theorem next_colon (hflow : l.inFlow = false) (hcolumn : l.cursor.column ≠ 0)
    (hrest : spaceAhead rest) :
  l.next ':' rest = l.value
  := by
  simp [next, Cursor.atMarker, hflow, hcolumn, hrest]

/-- The lexer behind a possible key. -/
def behindKey (l : Lexer) (key body : List Char) : Lexer :=
  { l with
    cursor := l.cursor.moveTo (':' :: body)
    tokens := l.tokens.push (.scalar .plain (String.ofList key))
    keys := [some ⟨decide (l.indent = l.cursor.column), l.tokens.size, l.cursor.index,
      l.cursor.line, l.cursor.column⟩]
    keyAllowed := false }

/-- A name that is short enough for a key. -/
structure IsKey (key : List Char) : Prop where
  ne_nil : key ≠ []
  chars : ∀ c ∈ key, IsNameChar c
  short : key.length ≤ 1024

/-- Whether a text is such a name. -/
def isKey (key : List Char) : Bool :=
  !key.isEmpty && key.all (fun c => c.isAlphanum || c = '_') && key.length ≤ 1024

variable {key body : List Char}

theorem isKey_iff :
  isKey key ↔ IsKey key
  := by
  have hiff : isKey key ↔ (key ≠ [] ∧ ∀ c ∈ key, IsNameChar c) ∧ key.length ≤ 1024 := by
    simp [isKey, IsNameChar]
  rw [hiff]
  constructor
  · rintro ⟨⟨hne, hchars⟩, hshort⟩
    exact ⟨hne, hchars, hshort⟩
  · rintro ⟨hne, hchars, hshort⟩
    exact ⟨⟨hne, hchars⟩, hshort⟩

theorem plainScalar_key (hkey : IsKey key) (h : l.Holds ts depth) (hallowed : l.keyAllowed)
    (hrest : l.cursor.rest = key ++ ':' :: body) (hbody : spaceAhead body) :
  l.plainScalar = some (l.behindKey key body)
  := by
  have hread : readPlain false l.indent l.cursor = _ :=
    readPlain_name hkey.ne_nil hkey.chars hrest hbody
  simp [plainScalar, saveKey, hallowed, dropKey, h.keys, giveUp, inFlow, behindKey, hread]

theorem byteCount_name (h : ∀ c ∈ key, IsNameChar c) :
  byteCount key = key.length
  := by
  have hfold : ∀ n, key.foldl (fun n c => n + c.utf8Size) n = n + key.length := by
    induction key with
    | nil =>
        intro n
        rfl
    | cons c key ih =>
        intro n
        obtain ⟨hc, hkey⟩ := List.forall_mem_cons.1 h
        have hsize : c.utf8Size = 1 :=
          Char.utf8Size_eq_one_iff.2 (UInt32.le_trans hc.bounds.2 (by decide))
        rw [List.foldl_cons, ih hkey, hsize, List.length_cons]
        omega
  rw [byteCount, hfold, Nat.zero_add]

/-- A key is not given up in front of its colon. -/
theorem prepare_behindKey (hkey : IsKey key) (hrest : l.cursor.rest = key ++ ':' :: body)
    (hindent : l.indent ≤ l.cursor.column) :
  (l.behindKey key body).prepare = some (l.behindKey key body)
  := by
  have hcursor : (l.behindKey key body).cursor = ⟨':' :: body, l.cursor.index + byteCount key,
      l.cursor.line, l.cursor.column + key.length⟩ := Cursor.moveTo_eq hrest
  have hcolon : BeginsToken (l.behindKey key body).cursor.rest := by
    rw [hcursor]
    simp [BeginsToken, isSpace, isBlank, isBreak]
  have hkept : (l.behindKey key body).dropStaleKeys = some (l.behindKey key body) := by
    apply dropStaleKeys_eq rfl
    have hshort := hkey.short
    rw [hcursor, byteCount_name hkey.chars]
    simp only [Option.elim_some, isStale, Nat.lt_irrefl, decide_false, Bool.false_or,
      decide_eq_false_iff_not]
    omega
  rw [prepare, skipSpace_of_beginsToken hcolon, hkept, Option.map_some, unroll_of_le]
  rw [hcursor]
  simp only [behindKey]
  omega

theorem insertIdx_length (ts more : List Token) (t : Token) :
  (ts ++ more).insertIdx ts.length t = ts ++ t :: more
  := by
  induction ts with
  | nil => rfl
  | cons t' ts ih =>
      rw [List.cons_append, List.length_cons, List.insertIdx_succ_cons, ih, List.cons_append]

theorem Holds.indent (h : l.Holds ts depth) :
  l.indent = max (2 * (depth : Int) - 2) (-1)
  := by
  have hblocks := h.blocks
  cases depth with
  | zero => exact (List.cons_eq_cons.1 hblocks).1
  | succ depth =>
      rw [(List.cons_eq_cons.1 hblocks).1]
      omega

/-- What happens in front of a line at some level: mappings end, or one begins. -/
def lineTokens (depth level : Nat) : List Token :=
  List.replicate (depth - (level + 1)) .blockEnd ++ if depth = level then [.blockMapStart] else []

/-- The lexer stands behind the colon of a member. -/
structure AtBody (l : Lexer) (ts : List Token) (depth : Nat) (rest : List Char) : Prop
    extends l.Holds ts depth where
  keyAllowed : l.keyAllowed = false
  rest : l.cursor.rest = rest
  indented : l.indent < l.cursor.column

/-- The colon behind a key opens a mapping unless there is one in the column of the key. -/
theorem value_behindKey (h : l.Holds ts depth) (hdepth : depth = level ∨ depth = level + 1)
    (hcursor : l.cursor.At (key ++ ':' :: body) (2 * level)) :
  ∃ l', (l.behindKey key body).value = some l' ∧
    l'.AtBody (ts ++ (if depth = level then [.blockMapStart] else []) ++
      [.key, .scalar .plain (String.ofList key), .value]) (level + 1) body
  := by
  have hat : (l.behindKey key body).cursor.At (':' :: body) (2 * level + key.length) :=
    hcursor.moveTo
  have hafter := hat.skip_one
  rcases hdepth with rfl | rfl
  · have hopens : l.indent < 2 * (depth : Int) := by
      rw [h.indent]
      omega
    let tokens := ts ++ [.blockMapStart, .key, .scalar .plain (String.ofList key), .value]
    refine ⟨⟨(l.behindKey key body).cursor.skip 1, tokens.toArray, 2 * depth,
      l.indent :: l.outer, [none], false⟩, ?_, ⟨?_, ?_, rfl⟩, rfl, hafter.rest, ?_⟩
    · simp [value, behindKey, roll, inFlow, indicator, h.tokens, hcursor.column, hopens,
        insertIdx_length, tokens]
    · simp [tokens]
    · rw [h.blocks, blocks]
    · rw [hafter.column]
      show 2 * (depth : Int) < _
      omega
  · have hopen : ¬ l.indent < 2 * (level : Int) := by
      rw [h.indent]
      omega
    let tokens := ts ++ [.key, .scalar .plain (String.ofList key), .value]
    refine ⟨⟨(l.behindKey key body).cursor.skip 1, tokens.toArray, l.indent, l.outer, [none],
      false⟩, ?_, ⟨?_, h.blocks, rfl⟩, rfl, hafter.rest, ?_⟩
    · simp [value, behindKey, roll, inFlow, indicator, h.tokens, hcursor.column, hopen,
        insertIdx_length, tokens]
    · simp [tokens]
    · rw [hafter.column]
      show l.indent < _
      rw [h.indent]
      omega

/-- A key of a mapping with its colon.  In front of it mappings end, or one begins. -/
theorem AtLine.advances_key (h : l.AtLine ts depth level (key ++ ':' :: body))
    (hdepth : level ≤ depth) (hkey : IsKey key) (hbody : spaceAhead body) :
  ∃ l', Advances (key.length + 1) l l' ∧
    l'.AtBody (ts ++ lineTokens depth level ++
      [.key, .scalar .plain (String.ofList key), .value]) (level + 1) body
  := by
  obtain ⟨c, cs, rfl⟩ := List.exists_cons_of_ne_nil hkey.ne_nil
  have hc := hkey.chars c List.mem_cons_self
  have hbegins : BeginsToken (c :: cs ++ ':' :: body) := by
    simpa [BeginsToken] using ⟨hc.isSpace, hc.ne rfl, hc.ne rfl⟩
  obtain ⟨p, hprepare, hcursor, hallowed, hholds⟩ := h.prepare hbegins
  have hnext : p.next c (cs ++ ':' :: body) = some (p.behindKey (c :: cs) body) := by
    rw [next_plain hholds.inFlow (atMarker_of_name hc hcursor.rest) hc.isSpace
      (hc.indicatesAtStart _)]
    apply plainScalar_key hkey hholds hallowed hcursor.rest hbody
  have hindent : p.indent ≤ p.cursor.column := by
    rw [hcursor.column, hholds.indent]
    omega
  have hcolon : (p.behindKey (c :: cs) body).cursor.At (':' :: body) _ := hcursor.moveTo
  obtain ⟨l', hvalue, hl'⟩ := value_behindKey hholds (by omega) hcursor
  refine ⟨l', ⟨2, by simp, ?_⟩, ?_⟩
  · intro fuel
    rw [run_of_next hprepare hcursor.rest hnext,
      run_of_next (prepare_behindKey hkey hcursor.rest hindent) hcolon.rest]
    rw [next_colon rfl _ hbody, hvalue]
    rw [hcolon.column]
    simp
  · have hopens : (min depth (level + 1) = level) = (depth = level) := by
      apply propext
      omega
    simpa only [lineTokens, hopens, List.append_assoc] using hl'

/-! ### Scalars -/

end Lexer

/-- The text may be written in the style. -/
def ScalarStyle.Fits : ScalarStyle → List Char → Prop
  | .plain, cs => IsPlain cs
  | .singleQuoted, cs => SingleText cs
  | .doubleQuoted, _ => True
  | .literal, cs => literalAllowed cs ∧ cs ≠ []
  | .folded, _ => False

namespace Lexer

variable {l : Lexer} {ts : List Token} {depth level n : Nat} {cs rest : List Char}

/-- A space in front of the value of a member. -/
theorem AtBody.prepare (h : l.AtBody ts depth (' ' :: rest)) (hrest : BeginsToken rest) :
  ∃ p, l.prepare = some p ∧ p.AtBody ts depth rest
  := by
  obtain ⟨c, hskip, hc⟩ := skipSpace_spaces (n := 1) ⟨h.rest, rfl⟩ hrest l.cursor.rest.length
  have hafter : AtBody { l with cursor := c } ts depth rest := by
    refine ⟨⟨h.tokens, h.blocks, h.keys⟩, h.keyAllowed, hc.rest, ?_⟩
    have hindented := h.indented
    show l.indent < c.column
    rw [hc.column]
    omega
  refine ⟨{ l with cursor := c }, ?_, hafter⟩
  rw [Lexer.prepare, hskip, dropStaleKeys_eq hafter.keys rfl, Option.map_some,
    unroll_of_le (Int.le_of_lt hafter.indented)]

theorem AtBody.saveKey (h : l.AtBody ts depth rest) :
  l.saveKey = some l
  := by
  rw [Lexer.saveKey, if_neg (by simp [h.keyAllowed])]

theorem Holds.push (h : l.Holds ts depth) (t : Token) (c : Cursor) (keyAllowed : Bool) :
  Holds { l with cursor := c, tokens := l.tokens.push t, keyAllowed := keyAllowed } (ts ++ [t])
    depth
  := by
  refine ⟨?_, h.blocks, h.keys⟩
  rw [h.tokens, List.push_toArray]

theorem AtBody.plainScalar (hcs : IsPlain cs)
    (h : l.AtBody ts (level + 1) (cs ++ '\n' :: (List.replicate (2 * n) ' ' ++ rest)))
    (hrest : Resumes rest) (hn : n ≤ level) :
  ∃ l', l.plainScalar = some l' ∧
    l'.AtLine (ts ++ [.scalar .plain (String.ofList cs)]) (level + 1) n rest
  := by
  have hindent := h.indent
  have hindented := h.indented
  obtain ⟨c, hread, hc⟩ := readPlain_text hcs ⟨h.rest, rfl⟩ (by omega) h.indented hrest (n := 2 * n)
    (by omega)
  refine ⟨_, ?_, h.push (.scalar .plain (String.ofList cs)) c true, .inl ⟨rfl, hc⟩⟩
  rw [Lexer.plainScalar, h.saveKey]
  simp [h.inFlow, hread]

theorem AtBody.quotedScalar {double : Bool} {indent : Nat} {body : List Char}
    (hcs : QuotedText double indent cs body) (hindent : indent ≠ 0)
    (h : l.AtBody ts depth (quote double :: body ++
      quote double :: '\n' :: (List.replicate (2 * n) ' ' ++ rest))) :
  ∃ l', l.quotedScalar double = some l' ∧
    l'.AtLine (ts ++ [.scalar (if double then .doubleQuoted else .singleQuoted) (String.ofList cs)])
      depth n rest
  := by
  obtain ⟨c, column, hread, hc⟩ := hcs.readQuoted hindent ⟨h.rest, rfl⟩
  refine ⟨_, ?_, h.push _ c false, .inr ⟨column, hc⟩⟩
  rw [Lexer.quotedScalar, h.saveKey]
  simp [hread]

theorem AtBody.blockScalar (hcs : literalAllowed cs) (hne : cs ≠ [])
    (h : l.AtBody ts (level + 1) (scalarText (List.replicate (2 * level + 2) ' ') .literal cs ++
      (List.replicate (2 * n) ' ' ++ rest)))
    (hrest : Resumes rest) (hn : n ≤ level) :
  ∃ l', l.blockScalar false = some l' ∧
    l'.AtLine (ts ++ [.scalar .literal (String.ofList cs)]) (level + 1) n rest
  := by
  have hindent : l.indent = (2 * level : Nat) := by
    rw [h.indent]
    omega
  obtain ⟨c, hread, hc⟩ := readBlock_literal hcs hne ⟨h.rest, rfl⟩ (by omega) hrest
  rw [← hindent] at hread
  refine ⟨_, ?_, h.push (.scalar .literal (String.ofList cs)) c true, .inl ⟨rfl, hc⟩⟩
  simp [Lexer.blockScalar, dropKey, h.keys, giveUp, hread]

/-- One step from the space in front of a token. -/
theorem AtBody.advances {ch : Char} (h : l.AtBody ts depth (' ' :: ch :: rest))
    (hch : BeginsToken (ch :: rest)) {post : Lexer → Prop}
    (hnext : ∀ p : Lexer, p.AtBody ts depth (ch :: rest) →
      ∃ l', p.next ch rest = some l' ∧ post l') :
  ∃ l', Advances 1 l l' ∧ post l'
  := by
  obtain ⟨p, hprepare, hp⟩ := h.prepare hch
  obtain ⟨l', hnext, hl'⟩ := hnext p hp
  exact ⟨l', ⟨1, Nat.le_refl 1, run_of_next hprepare hp.rest hnext⟩, hl'⟩

theorem AtBody.atMarker (h : l.AtBody ts (level + 1) rest) :
  l.cursor.atMarker = false
  := by
  have hindent := h.indent
  have hindented := h.indented
  apply Cursor.At.atMarker ⟨rfl, rfl⟩
  omega

/-- The value of a member that is a plain scalar. -/
theorem AtBody.advances_plain (hcs : IsPlain cs)
    (h : l.AtBody ts (level + 1) (' ' :: cs ++ '\n' :: (List.replicate (2 * n) ' ' ++ rest)))
    (hrest : Resumes rest) (hn : n ≤ level) :
  ∃ l', Advances 1 l l' ∧
    l'.AtLine (ts ++ [.scalar .plain (String.ofList cs)]) (level + 1) n rest
  := by
  obtain ⟨ch, tail, rfl⟩ := List.exists_cons_of_ne_nil hcs.ne_nil
  have hspace : isSpace ch = false := by
    have hne : ch ≠ ' ' := by simpa using hcs.outer
    rw [← Bool.not_eq_true, hcs.isSpace_iff List.mem_cons_self]
    apply hne
  have hstart : ∀ after, indicatesAtStart ch (tail ++ '\n' :: after) = false := by
    have hahead : ∀ after, spaceAhead (tail ++ '\n' :: after) = spaceAhead tail := by
      cases tail <;> intro after <;> rfl
    intro after
    rw [indicatesAtStart, hahead]
    apply hcs.start ch tail rfl
  have hbegins : ∀ after, BeginsToken (ch :: (tail ++ '\n' :: after)) := by
    intro after d hd
    obtain rfl := Option.some.inj hd
    refine ⟨hspace, ?_, ?_⟩
    · rintro rfl
      have hmark := hstart []
      simp [indicatesAtStart, String.contains_char_eq] at hmark
    · rintro rfl
      cases (hcs.chars _ List.mem_cons_self).1
  rw [List.cons_append, List.cons_append] at h
  apply h.advances (hbegins _)
  intro p hp
  rw [next_plain hp.inFlow hp.atMarker hspace (hstart _)]
  apply hp.plainScalar hcs hrest hn

/-- The value of a member that is a quoted scalar. -/
theorem AtBody.advances_quoted {double : Bool} {indent : Nat} {body : List Char}
    (hcs : QuotedText double indent cs body) (hindent : indent ≠ 0)
    (h : l.AtBody ts (level + 1) (' ' :: quote double :: (body ++
      quote double :: '\n' :: (List.replicate (2 * n) ' ' ++ rest)))) :
  ∃ l', Advances 1 l l' ∧
    l'.AtLine (ts ++ [.scalar (if double then .doubleQuoted else .singleQuoted) (String.ofList cs)])
      (level + 1) n rest
  := by
  apply h.advances
  · cases double <;> simp [BeginsToken, quote, isSpace, isBlank, isBreak]
  · intro p hp
    have hnext : p.next (quote double) (body ++
        quote double :: '\n' :: (List.replicate (2 * n) ' ' ++ rest)) = p.quotedScalar double := by
      cases double <;> simp [next, quote, hp.atMarker]
    rw [hnext]
    apply hp.quotedScalar hcs hindent

/-- The value of a member that is a literal scalar. -/
theorem AtBody.advances_literal (hcs : literalAllowed cs) (hne : cs ≠ [])
    (h : l.AtBody ts (level + 1) (' ' :: scalarText (List.replicate (2 * level + 2) ' ') .literal cs
      ++ (List.replicate (2 * n) ' ' ++ rest)))
    (hrest : Resumes rest) (hn : n ≤ level) :
  ∃ l', Advances 1 l l' ∧
    l'.AtLine (ts ++ [.scalar .literal (String.ofList cs)]) (level + 1) n rest
  := by
  obtain ⟨tail, htail⟩ : ∃ tail,
    scalarText (List.replicate (2 * level + 2) ' ') .literal cs = '|' :: tail := ⟨_, rfl⟩
  rw [htail, List.cons_append, List.cons_append] at h
  apply h.advances (by simp [BeginsToken, isSpace, isBlank, isBreak])
  intro p hp
  have hnext : p.next '|' (tail ++ (List.replicate (2 * n) ' ' ++ rest)) = p.blockScalar false := by
    simp [next, hp.atMarker, hp.inFlow]
  rw [hnext]
  rw [← List.cons_append, ← htail] at hp
  apply hp.blockScalar hcs hne hrest hn

/-- The value of a member that is a scalar. -/
theorem AtBody.advances_scalar {style : ScalarStyle} (hcs : style.Fits cs)
    (h : l.AtBody ts (level + 1) (' ' :: scalarText (List.replicate (2 * level + 2) ' ') style cs ++
      (List.replicate (2 * n) ' ' ++ rest)))
    (hrest : Resumes rest) (hn : n ≤ level) :
  ∃ l', Advances 1 l l' ∧
    l'.AtLine (ts ++ [.scalar style (String.ofList cs)]) (level + 1) n rest
  := by
  cases style with
  | plain =>
      apply AtBody.advances_plain hcs _ hrest hn
      simpa [scalarText] using h
  | singleQuoted =>
      apply AtBody.advances_quoted (quotedText_doubled (2 * level + 2) hcs) (Nat.succ_ne_zero _)
      simpa [scalarText, singleQuotedText, singleBody, doubled, quote] using h
  | doubleQuoted =>
      apply AtBody.advances_quoted (quotedText_escaped 1 cs) Nat.one_ne_zero
      simpa [scalarText, quote] using h
  | literal =>
      exact AtBody.advances_literal hcs.1 hcs.2 h hrest hn
  | folded => cases hcs

end Lexer

end ServiceFlow.Yaml
