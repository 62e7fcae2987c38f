import SearchQuery.Json.Parser
import SearchQuery.Proofs.NumberText
import Mathlib.Tactic.SplitIfs

/-! # JSON text reads back

The text of a value, compact or indented, spells the tokens of the value with nothing but spaces
between them, and from these tokens the machine builds the document of the value. Its numbers are
what their own text is read as; everything else comes back as it was. -/
namespace SearchQuery.Json

open Token

/-! ### Strings -/

theorem hexDigit?_hexChar : ∀ n < 16, hexDigit? (hexChar n) = some n := by decide

/-- The escape of a character is scanned as its code value. -/
theorem scanUnits?_escapeChar (acc : List Nat) (c : Char) (rest : List Char) :
    scanUnits? acc (escapeChar c ++ rest) = scanUnits? (c.toNat :: acc) rest := by
  unfold escapeChar
  split_ifs with hquote hslash hline hreturn htab hback hform hcontrol
  all_goals try (subst c; rfl)
  · have hsmall : c.toNat < 32 := hcontrol
    have hzero : hexDigit? '0' = some 0 := rfl
    simp only [List.cons_append, List.nil_append, scanUnits?, hzero,
      hexDigit?_hexChar _ (show c.toNat / 16 < 16 by omega),
      hexDigit?_hexChar _ (show c.toNat % 16 < 16 by omega)]
    congr 2
    omega
  · have hplain : scanUnits? acc (c :: rest) =
        if c < ' ' then none else scanUnits? (c.toNat :: acc) rest := by
      rw [scanUnits?.eq_def]
      split <;> simp_all
    exact hplain.trans (if_neg hcontrol)

theorem scanUnits?_flatMap (acc : List Nat) (cs rest : List Char) :
    scanUnits? acc (cs.flatMap escapeChar ++ '"' :: rest) =
      some (acc.reverse ++ cs.map Char.toNat, rest) := by
  induction cs generalizing acc with
  | nil => simp [scanUnits?]
  | cons c cs ih => simp [scanUnits?_escapeChar, ih]

/-- No character is a surrogate. -/
theorem ofUnits?_map (acc cs : List Char) :
    ofUnits? acc (cs.map Char.toNat) = some (acc.reverse ++ cs) := by
  induction cs generalizing acc with
  | nil => simp [ofUnits?]
  | cons c cs ih =>
    have hvalid : c.toNat < 0xD800 ∨ 0xDFFF < c.toNat := by
      rcases c.valid with h | h
      · exact .inl h
      · exact .inr h.1
    have hhigh : isHigh c.toNat = false := by
      simp only [isHigh, Bool.and_eq_false_iff, decide_eq_false_iff_not]
      omega
    have hlow : isLow c.toNat = false := by
      simp only [isLow, Bool.and_eq_false_iff, decide_eq_false_iff_not]
      omega
    rw [List.map_cons, ofUnits?.eq_def]
    simp [hhigh, hlow, ih]

/-- A written string is one token, whatever follows it. -/
theorem scan?_quoted (s : String) (rest : List Char) :
    scan? (quoted s ++ rest) = some (.str (some s), rest) := by
  simp [quoted, scan?, scanUnits?_flatMap, ofUnits?_map]

/-! ### Texts and their tokens -/

/-- A text spells tokens, with spaces anywhere between them. -/
inductive Lexes : List Char → List Token → Prop
  | done : Lexes [] []
  | space {c cs ts} (hspace : isSpace c = true) (hrest : Lexes cs ts) : Lexes (c :: cs) ts
  | token {c cs rest t ts} (hspace : isSpace c = false)
      (hscan : scan? (c :: cs) = some (t, rest)) (hrest : Lexes rest ts) :
      Lexes (c :: cs) (t :: ts)

/-- Feeding a text to the machine, by what is left without the spaces in front. -/
theorem run_of_dropWhile {p : Progress} {cs : List Char} :
    p.run cs = match cs.dropWhile isSpace with
      | [] => some p
      | c :: rest => (scan? (c :: rest)).bind fun r => (p.step r.1).bind fun q => q.run r.2 := by
  rw [Progress.run]
  split
  · rename_i h
    simp only [h]
  · rename_i c rest h
    simp only [h]
    split
    · rename_i ht
      rw [ht]
      rfl
    · rename_i t rest' ht
      rw [ht, Option.bind_some]
      cases p.step t <;> rfl

/-- The machine is fed exactly the tokens that a text spells. -/
theorem run_eq_foldlM {cs : List Char} {ts : List Token} (h : Lexes cs ts) (p : Progress) :
    p.run cs = ts.foldlM Progress.step p := by
  induction h generalizing p with
  | done => rw [run_of_dropWhile]; rfl
  | @space c cs ts hspace hrest ih =>
    rw [← ih, run_of_dropWhile, List.dropWhile_cons, if_pos hspace, ← run_of_dropWhile]
  | @token c cs rest t ts hspace hscan hrest ih =>
    rw [run_of_dropWhile, List.dropWhile_cons, if_neg (by simp [hspace])]
    simp only [hscan, Option.bind_some, ih]
    rfl

/-! ### The tokens of a value -/

mutual

/-- The tokens of a value, its numbers as they are read back. -/
def tokens : Json → List Token
  | null => [.null]
  | bool b => [.bool b]
  | num n => [.num n.reread]
  | str s => [.str (some s)]
  | arr [] => [.openArr, .closeArr]
  | arr (x :: xs) => .openArr :: x.tokens ++ itemTokens xs
  | obj [] => [.openObj, .closeObj]
  | obj ((k, v) :: ms) => .openObj :: .str (some k) :: .colon :: v.tokens ++ memberTokens ms

def itemTokens : List Json → List Token
  | [] => [.closeArr]
  | x :: xs => .comma :: x.tokens ++ itemTokens xs

def memberTokens : List (String × Json) → List Token
  | [] => [.closeObj]
  | (k, v) :: ms => .comma :: .str (some k) :: .colon :: v.tokens ++ memberTokens ms

end

mutual

/-- The document of a value, its numbers as they are read back. -/
def reread : Json → Document
  | null => .null
  | bool b => .bool b
  | num n => .num n.reread
  | str s => .str (some s)
  | arr xs => .arr (rereadItems xs)
  | obj ms => .obj (rereadMembers ms)

def rereadItems : List Json → List Document
  | [] => []
  | x :: xs => x.reread :: rereadItems xs

def rereadMembers : List (String × Json) → List (Option String × Document)
  | [] => []
  | (k, v) :: ms => (some k, v.reread) :: rereadMembers ms

end

/-! ### Texts of values -/

theorem lexes_spaces {n : Nat} {cs : List Char} {ts : List Token} (h : Lexes cs ts) :
    Lexes (List.replicate n ' ' ++ cs) ts := by
  induction n with
  | zero => exact h
  | succ n ih => exact .space rfl ih

theorem lexes_lineBreak {level : Nat} {cs : List Char} {ts : List Token} (h : Lexes cs ts) :
    Lexes (lineBreak level ++ cs) ts :=
  .space rfl (lexes_spaces h)

theorem lexes_quoted {s : String} {cs : List Char} {ts : List Token} (h : Lexes cs ts) :
    Lexes (quoted s ++ cs) (.str (some s) :: ts) :=
  .token (c := '"') rfl (scan?_quoted s cs) h

theorem lexes_bool {b : Bool} {cs : List Char} {ts : List Token} (h : Lexes cs ts) :
    Lexes (boolChars b ++ cs) (.bool b :: ts) := by
  cases b with
  | true => exact .token rfl rfl h
  | false => exact .token rfl rfl h

theorem eq_of_isSpace {c : Char} (h : isSpace c = true) :
    c = ' ' ∨ c = '\t' ∨ c = '\n' ∨ c = '\r' := by
  simpa [isSpace, or_assoc] using h

theorem endsNumber_spaces {cs : List Char} (h : ∀ c ∈ cs, isSpace c = true) : EndsNumber cs := by
  intro c hc
  rcases eq_of_isSpace (h c (List.mem_of_mem_head? hc)) with rfl | rfl | rfl | rfl <;> rfl

theorem lexes_number {n : Number} {cs : List Char} {ts : List Token} (hcs : EndsNumber cs)
    (h : Lexes cs ts) : Lexes (n.chars ++ cs) (.num n.reread :: ts) := by
  obtain ⟨c, rest, hchars, hc⟩ := n.exists_head
  have hscan := scan?_number n hcs
  rw [hchars] at hscan ⊢
  refine .token ?_ hscan h
  cases hspace : isSpace c with
  | false => rfl
  | true => rcases eq_of_isSpace hspace with rfl | rfl | rfl | rfl <;> simp at hc

/-- What stands between items and behind the last one does not go on a number. -/
theorem endsNumber_compactItems (xs : List Json) (cs : List Char) :
    EndsNumber (compactItems xs ++ cs) := by
  cases xs <;> simp [compactItems, EndsNumber, continuesNumber]

theorem endsNumber_compactMembers (ms : List (String × Json)) (cs : List Char) :
    EndsNumber (compactMembers ms ++ cs) := by
  cases ms <;> simp [compactMembers, EndsNumber, continuesNumber]

theorem endsNumber_prettyItems (level : Nat) (xs : List Json) (cs : List Char) :
    EndsNumber (prettyItems level xs ++ cs) := by
  cases xs <;> simp [prettyItems, lineBreak, EndsNumber, continuesNumber]

theorem endsNumber_prettyMembers (level : Nat) (ms : List (String × Json)) (cs : List Char) :
    EndsNumber (prettyMembers level ms ++ cs) := by
  cases ms <;> simp [prettyMembers, lineBreak, EndsNumber, continuesNumber]

mutual

/-- The compact text of a value spells its tokens. -/
theorem lexes_compactChars (j : Json) {cs : List Char} {ts : List Token} (hcs : EndsNumber cs)
    (h : Lexes cs ts) : Lexes (j.compactChars ++ cs) (j.tokens ++ ts) := by
  match j with
  | null => exact .token rfl rfl h
  | bool b => exact lexes_bool h
  | num n => exact lexes_number hcs h
  | str s => exact lexes_quoted h
  | arr [] => exact .token rfl rfl (.token rfl rfl h)
  | arr (x :: xs) =>
    simp only [compactChars, tokens, List.cons_append, List.append_assoc]
    exact .token rfl rfl
      (lexes_compactChars x (endsNumber_compactItems xs cs) (lexes_compactItems xs h))
  | obj [] => exact .token rfl rfl (.token rfl rfl h)
  | obj ((k, v) :: ms) =>
    simp only [compactChars, tokens, List.cons_append, List.append_assoc]
    exact .token rfl rfl (lexes_quoted (.token rfl rfl
      (lexes_compactChars v (endsNumber_compactMembers ms cs) (lexes_compactMembers ms h))))

theorem lexes_compactItems (xs : List Json) {cs : List Char} {ts : List Token}
    (h : Lexes cs ts) : Lexes (compactItems xs ++ cs) (itemTokens xs ++ ts) := by
  match xs with
  | [] => exact .token rfl rfl h
  | x :: xs =>
    simp only [compactItems, itemTokens, List.cons_append, List.append_assoc]
    exact .token rfl rfl
      (lexes_compactChars x (endsNumber_compactItems xs cs) (lexes_compactItems xs h))

theorem lexes_compactMembers (ms : List (String × Json)) {cs : List Char} {ts : List Token}
    (h : Lexes cs ts) : Lexes (compactMembers ms ++ cs) (memberTokens ms ++ ts) := by
  match ms with
  | [] => exact .token rfl rfl h
  | (k, v) :: ms =>
    simp only [compactMembers, memberTokens, List.cons_append, List.append_assoc]
    exact .token rfl rfl (lexes_quoted (.token rfl rfl
      (lexes_compactChars v (endsNumber_compactMembers ms cs) (lexes_compactMembers ms h))))

end

mutual

/-- The indented text of a value spells the same tokens. -/
theorem lexes_prettyChars (level : Nat) (j : Json) {cs : List Char} {ts : List Token}
    (hcs : EndsNumber cs) (h : Lexes cs ts) :
    Lexes (j.prettyChars level ++ cs) (j.tokens ++ ts) := by
  match j with
  | null => exact .token rfl rfl h
  | bool b => exact lexes_bool h
  | num n => exact lexes_number hcs h
  | str s => exact lexes_quoted h
  | arr [] => exact .token rfl rfl (.token rfl rfl h)
  | arr (x :: xs) =>
    simp only [prettyChars, tokens, List.cons_append, List.append_assoc]
    exact .token rfl rfl (lexes_lineBreak
      (lexes_prettyChars _ x (endsNumber_prettyItems level xs cs) (lexes_prettyItems level xs h)))
  | obj [] => exact .token rfl rfl (.token rfl rfl h)
  | obj ((k, v) :: ms) =>
    simp only [prettyChars, tokens, List.cons_append, List.append_assoc]
    exact .token rfl rfl (lexes_lineBreak (lexes_quoted (.token rfl rfl (.space rfl
      (lexes_prettyChars _ v (endsNumber_prettyMembers level ms cs)
        (lexes_prettyMembers level ms h))))))

theorem lexes_prettyItems (level : Nat) (xs : List Json) {cs : List Char} {ts : List Token}
    (h : Lexes cs ts) : Lexes (prettyItems level xs ++ cs) (itemTokens xs ++ ts) := by
  match xs with
  | [] =>
    simp only [prettyItems, itemTokens, List.append_assoc]
    exact lexes_lineBreak (.token rfl rfl h)
  | x :: xs =>
    simp only [prettyItems, itemTokens, List.cons_append, List.append_assoc]
    exact .token rfl rfl (lexes_lineBreak
      (lexes_prettyChars _ x (endsNumber_prettyItems level xs cs) (lexes_prettyItems level xs h)))

theorem lexes_prettyMembers (level : Nat) (ms : List (String × Json)) {cs : List Char}
    {ts : List Token} (h : Lexes cs ts) :
    Lexes (prettyMembers level ms ++ cs) (memberTokens ms ++ ts) := by
  match ms with
  | [] =>
    simp only [prettyMembers, memberTokens, List.append_assoc]
    exact lexes_lineBreak (.token rfl rfl h)
  | (k, v) :: ms =>
    simp only [prettyMembers, memberTokens, List.cons_append, List.append_assoc]
    exact .token rfl rfl (lexes_lineBreak (lexes_quoted (.token rfl rfl (.space rfl
      (lexes_prettyChars _ v (endsNumber_prettyMembers level ms cs)
        (lexes_prettyMembers level ms h))))))

end

/-! ### From tokens to the document -/

theorem exists_head_tokens (j : Json) :
    ∃ t ts, j.tokens = t :: ts ∧ ∀ stack, Progress.step (.opened stack) t =
      Progress.step (.awaiting (.item [] :: stack)) t := by
  match j with
  | null | bool b | num n | str s | arr [] | obj [] => exact ⟨_, _, rfl, fun _ => rfl⟩
  | arr (x :: xs) | obj ((k, v) :: ms) => exact ⟨_, _, rfl, fun _ => rfl⟩

mutual

/-- Where a value is awaited, its tokens complete its document. -/
theorem foldlM_tokens (j : Json) (stack : List Frame) (ts : List Token) :
    (j.tokens ++ ts).foldlM Progress.step (.awaiting stack) =
      ts.foldlM Progress.step (.complete j.reread stack) := by
  match j with
  | null | bool b | num n | str s | arr [] | obj [] => rfl
  | arr (x :: xs) =>
    obtain ⟨t, tail, htokens, hstep⟩ := exists_head_tokens x
    have hfirst := foldlM_tokens x (.item [] :: stack) (itemTokens xs ++ ts)
    rw [htokens, List.cons_append, List.foldlM_cons, ← hstep] at hfirst
    simp only [tokens, List.cons_append, List.append_assoc, List.foldlM_cons]
    show List.foldlM _ (Progress.opened stack) _ = _
    rw [htokens, List.cons_append, List.foldlM_cons, hfirst, foldlM_itemTokens xs]
    rfl
  | obj ((k, v) :: ms) =>
    simp only [tokens, List.cons_append, List.append_assoc, List.foldlM_cons]
    show List.foldlM _ (Progress.awaiting (.member [] (some k) :: stack)) _ = _
    rw [foldlM_tokens v, foldlM_memberTokens ms]
    rfl

theorem foldlM_itemTokens (xs : List Json) (v : Document) (done : List Document)
    (stack : List Frame) (ts : List Token) :
    (itemTokens xs ++ ts).foldlM Progress.step (.complete v (.item done :: stack)) =
      ts.foldlM Progress.step
        (.complete (.arr (done.reverse ++ v :: rereadItems xs)) stack) := by
  match xs with
  | [] =>
    simp only [itemTokens, List.cons_append, List.nil_append, List.foldlM_cons, rereadItems,
      ← List.reverse_cons]
    rfl
  | x :: xs =>
    simp only [itemTokens, List.cons_append, List.append_assoc, List.foldlM_cons]
    show List.foldlM _ (Progress.awaiting (.item (v :: done) :: stack)) _ = _
    rw [foldlM_tokens x, foldlM_itemTokens xs]
    simp [rereadItems]

theorem foldlM_memberTokens (ms : List (String × Json)) (name : Option String) (v : Document)
    (done : List (Option String × Document)) (stack : List Frame) (ts : List Token) :
    (memberTokens ms ++ ts).foldlM Progress.step (.complete v (.member done name :: stack)) =
      ts.foldlM Progress.step
        (.complete (.obj (done.reverse ++ (name, v) :: rereadMembers ms)) stack) := by
  match ms with
  | [] =>
    simp only [memberTokens, List.cons_append, List.nil_append, List.foldlM_cons, rereadMembers,
      ← List.reverse_cons]
    rfl
  | (k, w) :: ms =>
    simp only [memberTokens, List.cons_append, List.append_assoc, List.foldlM_cons]
    show List.foldlM _ (Progress.awaiting (.member ((name, v) :: done) (some k) :: stack)) _ = _
    rw [foldlM_tokens w, foldlM_memberTokens ms]
    simp [rereadMembers]

end

/-- A text that spells the tokens of a value is read as its document. -/
theorem parse?_of_lexes {text : String} {j : Json} (h : Lexes text.toList j.tokens) :
    parse? text = some j.reread := by
  have hrun := run_eq_foldlM h (.awaiting [])
  have hdone := foldlM_tokens j [] []
  rw [List.append_nil] at hdone
  rw [hdone] at hrun
  simp only [parse?, hrun]
  rfl

theorem lexes_of_isSpace {cs : List Char} (h : ∀ c ∈ cs, isSpace c = true) : Lexes cs [] := by
  induction cs with
  | nil => exact .done
  | cons c cs ih =>
    obtain ⟨hc, hcs⟩ := List.forall_mem_cons.1 h
    exact .space hc (ih hcs)

/-- The text of a value is read as its document, whatever spaces stand behind it. -/
theorem parse?_text_append (indented : Bool) (j : Json) (spaces : String)
    (hspaces : ∀ c ∈ spaces.toList, isSpace c = true) :
    parse? (j.text indented ++ spaces) = some j.reread := by
  have hend := lexes_of_isSpace hspaces
  have hnumber := endsNumber_spaces hspaces
  apply parse?_of_lexes
  rw [← List.append_nil j.tokens]
  cases indented with
  | true => simpa [text, pretty] using lexes_prettyChars 0 j hnumber hend
  | false => simpa [text, compact] using lexes_compactChars j hnumber hend

theorem parse?_text (indented : Bool) (j : Json) : parse? (j.text indented) = some j.reread := by
  simpa using parse?_text_append indented j "" (by simp)

end SearchQuery.Json
