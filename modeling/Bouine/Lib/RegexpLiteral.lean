import Bouine.Lib.Regexp

/-! # Anchored expressions without operators

An expression `^text` or `^text$` whose text has only characters and escaped punctuation matches the
strings that start with the text or are the text. Escaped letters and digits are sets, assertions or
other characters, and left out.
-/

namespace Bouine.Lib.Regexp

open List Option Bool

def isMeta (c : Char) : Bool :=
  c ∈ ['\\', '.', '+', '*', '?', '(', ')', '|', '[', ']', '{', '}', '^', '$']

/-- The text of an expression without operators, in which an escaped character stands for
itself. -/
def literalText : List Char → Option (List Char)
  | [] => some []
  | c :: s =>
    if c = '\\' then
      match s with
      | [] => none
      | d :: s => (literalText s).map (d :: ·)
    else if isMeta c then none
    else (literalText s).map (c :: ·)

def plainEscapes : List Char → Bool
  | [] => true
  | c :: s =>
    if c = '\\' then
      match s with
      | [] => true
      | d :: s => !d.isAlphanum && plainEscapes s
    else plainEscapes s

theorem plainEscapes_cons {c : Char} (h : c ≠ '\\') (s : List Char) :
    plainEscapes (c :: s) = plainEscapes s := by
  rw [plainEscapes.eq_def]
  simp [h]

theorem plainEscapes_of_append {body tail lit : List Char} (h : literalText body = some lit)
    (hplain : plainEscapes (body ++ tail)) : plainEscapes body = true := by
  fun_induction literalText body generalizing lit with
  | case1 => rfl
  | case2 => cases h
  | case3 d s ih =>
    obtain ⟨lit, hlit, -⟩ := map_eq_some_iff.1 h
    simp only [cons_append, plainEscapes, if_true, and_eq_true] at hplain ⊢
    exact ⟨hplain.1, ih hlit hplain.2⟩
  | case4 => cases h
  | case5 c s hne hmeta ih =>
    obtain ⟨lit, hlit, -⟩ := map_eq_some_iff.1 h
    rw [cons_append, plainEscapes_cons hne] at hplain
    rw [plainEscapes_cons hne]
    exact ih hlit hplain

variable {body lit : List Char} {t : Tables}

theorem mem_of_mem_literalText (h : literalText body = some lit) {x : Char} (hx : x ∈ lit) :
    x ∈ body := by
  fun_induction literalText body generalizing lit with
  | case1 => obtain rfl := some.inj h; exact hx
  | case2 => cases h
  | case3 d s ih =>
    obtain ⟨lit, hlit, rfl⟩ := map_eq_some_iff.1 h
    rcases mem_cons.1 hx with rfl | hx
    · simp
    · exact .tail _ (.tail _ (ih hlit hx))
  | case4 => cases h
  | case5 c s hne hmeta ih =>
    obtain ⟨lit, hlit, rfl⟩ := map_eq_some_iff.1 h
    rcases mem_cons.1 hx with rfl | hx
    · simp
    · exact .tail _ (ih hlit hx)

/-! ## Reading the expression -/

theorem isSetEscape_of_not_alphanum {d : Char} (h : d.isAlphanum = false) :
    isSetEscape d = false := by
  have hall : ['p', 'P', 'd', 'D', 's', 'S', 'w', 'W'].all Char.isAlphanum = true := by decide
  refine decide_eq_false fun hmem => ?_
  rw [all_eq_true.1 hall d hmem] at h
  cases h

theorem isOctal_of_not_alphanum {d : Char} (h : d.isAlphanum = false) : isOctal d = false := by
  rw [Char.isAlphanum, or_eq_false_iff, Char.isDigit] at h
  simp only [and_eq_false_iff, decide_eq_false_iff_not]
    at h
  simp only [isOctal, and_eq_false_iff, decide_eq_false_iff_not]
  rcases h.2 with hlo | hhi
  · exact .inl hlo
  · refine .inr fun h7 => hhi (Nat.le_trans h7 (by decide))

/-- Escaped punctuation stands for itself; no other character but letters and digits may be escaped.
-/
theorem lexBackslash_of_not_alphanum {d : Char} (h : d.isAlphanum = false) (t : Tables)
    (s : List Char) :
    lexBackslash t (d :: s) = if d.toNat < 0x80 then some ([.lit d.toNat], s) else none := by
  have hescape : lexEscape (d :: s) = if d.toNat < 0x80 then some (d.toNat, s) else none := by
    simp only [lexEscape, isOctal_of_not_alphanum h]
    split_ifs with h1 h2 <;> simp_all
    split <;> first | rfl | exact absurd h (by decide)
  simp only [lexBackslash]
  split
  case h_6 =>
    rw [isSetEscape_of_not_alphanum h]
    split_ifs <;> simp_all
  all_goals exact absurd h (by decide)

/-- What an expression without groups, classes and repetitions is made of. -/
inductive Item where
  | lit (c : Char)
  | any
  | start
  | stop

def Item.token : Item → Token
  | .lit c => .lit c.toNat
  | .any => .dot
  | .start => .caret
  | .stop => .dollar

def Item.re : Item → Re
  | .lit c => .char fun x => x.toNat == c.toNat
  | .any => .char (· != '\n')
  | .start => .assert .beginText
  | .stop => .assert .endText

/-- The item of a character that is not escaped. -/
def Item.of (c : Char) : Item :=
  if c = '.' then .any else if c = '^' then .start else if c = '$' then .stop else .lit c

def isItem (c : Char) : Bool := !isMeta c || c ∈ ['.', '^', '$']

def items : List Char → Option (List Item)
  | [] => some []
  | c :: s =>
    if c = '\\' then
      match s with
      | [] => none
      | d :: s => if d.isAlphanum then none else (items s).map (.lit d :: ·)
    else if isItem c then (items s).map (.of c :: ·)
    else none

theorem items_cons {c : Char} (h : isItem c) (s : List Char) :
    items (c :: s) = (items s).map (.of c :: ·) := by
  have hslash : c ≠ '\\' := by rintro rfl; cases h
  rw [items.eq_def]
  simp [hslash, h]

theorem items_map {cs : List Char} (h : ∀ c ∈ cs, isItem c) : items cs = some (cs.map Item.of) := by
  induction cs with
  | nil => rfl
  | cons c cs ih =>
    rw [items_cons (h c (.head _)), ih fun c hc => h c (.tail _ hc)]
    rfl

theorem Item.of_eq_lit {c : Char} (h : isMeta c = false) : Item.of c = .lit c := by
  unfold Item.of
  split_ifs <;> first | rfl | subst_vars; exact absurd h (by decide)

theorem items_of_literalText (h : literalText body = some lit) (hplain : plainEscapes body)
    (s : List Char) : items (body ++ s) = (items s).map (lit.map .lit ++ ·) := by
  fun_induction literalText body generalizing lit with
  | case1 => obtain rfl := some.inj h; simp
  | case2 => cases h
  | case3 d body ih =>
    obtain ⟨lit, hlit, rfl⟩ := map_eq_some_iff.1 h
    obtain ⟨hd, hplain⟩ : d.isAlphanum = false ∧ plainEscapes body = true := by
      simpa [plainEscapes] using hplain
    simp [items, hd, ih hlit hplain, Function.comp_def]
  | case4 => cases h
  | case5 c body hne hmeta ih =>
    obtain ⟨lit, hlit, rfl⟩ := map_eq_some_iff.1 h
    rw [plainEscapes_cons hne] at hplain
    rw [Bool.not_eq_true] at hmeta
    rw [cons_append, items_cons (by simp [isItem, hmeta]), ih hlit hplain, Item.of_eq_lit hmeta]
    simp [Function.comp_def]

theorem lexToken_of_isItem {c : Char} (h : isItem c) (t : Tables) (s : List Char) :
    lexToken t c s = some ([(Item.of c).token], s) := by
  unfold lexToken
  split
  case h_13 => simp_all [Item.of, Item.token]
  all_goals first | rfl | cases h

theorem lex_nil (t : Tables) (n : Nat) : lex t n [] = some [] := by
  cases n <;> rfl

theorem lex_token {c : Char} {r s : List Char} {token : Token} {n : Nat} {tokens : List Token}
    (htoken : lexToken t c r = some ([token], s)) (hs : s.length ≤ r.length)
    (hn : (c :: r).length ≤ n) (hlex : lex t n (c :: r) = some tokens) :
    ∃ k more, s.length ≤ k ∧ lex t k s = some more ∧ tokens = token :: more := by
  rw [length_cons] at hn
  obtain ⟨n, rfl⟩ : ∃ k, n = k + 1 := ⟨n - 1, by omega⟩
  rw [lex, htoken] at hlex
  obtain ⟨more, hmore, rfl⟩ := map_eq_some_iff.1 hlex
  exact ⟨n, more, by omega, hmore, rfl⟩

/-- Reading an expression of items gives their tokens. -/
theorem lex_items {is : List Item} {n : Nat} {tokens : List Token} (h : items body = some is)
    (hn : body.length ≤ n) (hlex : lex t n body = some tokens) : tokens = is.map Item.token := by
  fun_induction items body generalizing is n tokens with
  | case1 =>
    cases h
    cases (lex_nil t n).symm.trans hlex
    rfl
  | case2 => cases h
  | case3 => cases h
  | case4 d s hd ih =>
    obtain ⟨is, his, rfl⟩ := map_eq_some_iff.1 h
    have htoken : lexToken t '\\' (d :: s) = lexBackslash t (d :: s) := rfl
    rw [lexBackslash_of_not_alphanum (by simpa using hd)] at htoken
    split_ifs at htoken with hascii
    · obtain ⟨k, rest, hk, hrest, rfl⟩ := lex_token htoken (Nat.le_succ _) hn hlex
      rw [ih his hk hrest]
      rfl
    · obtain ⟨n, rfl⟩ : ∃ k, n = k + 1 := ⟨n - 1, by simp at hn; omega⟩
      rw [lex, htoken] at hlex
      cases hlex
  | case5 c s _ hitem ih =>
    obtain ⟨is, his, rfl⟩ := map_eq_some_iff.1 h
    obtain ⟨k, rest, hk, hrest, rfl⟩ := lex_token (lexToken_of_isItem hitem t s) le_rfl hn hlex
    rw [ih his hk hrest]
    rfl
  | case6 => cases h

theorem parseTokens_items (t : Tables) (rs : List Re) (is : List Item) :
    parseTokens t { items := rs } (is.map Item.token) =
      some { items := (is.map Item.re).reverse ++ rs } := by
  induction is generalizing rs with
  | nil => rfl
  | cons i is ih =>
    have hitem : parseTokens t { items := rs } ((i :: is).map Item.token) =
        parseTokens t { items := i.re :: rs } (is.map Item.token) := by
      cases i <;> rfl
    rw [hitem, ih, map_cons, reverse_cons, append_assoc]
    rfl

theorem decodePattern_utf8 (cs : List Char) : decodePattern (utf8 cs) = some cs := by
  have hchars : chars (utf8 cs) = cs := by simpa using chars_utf8_append cs []
  rw [decodePattern, hchars, if_pos rfl]

/-- An expression of items is their sequence. -/
theorem compile_items {is : List Item} {re : Re} (hc : compile t (utf8 body) = some re)
    (h : items body = some is) : re = sequence (is.map Item.re) := by
  rw [compile, decodePattern_utf8] at hc
  simp only at hc
  split at hc
  · cases hc
  · rename_i tokens hlex
    obtain rfl := lex_items h le_rfl hlex
    have hparse := parseTokens_items t [] is
    rw [append_nil] at hparse
    rw [show parseTokens t {} _ = _ from hparse] at hc
    cases hc
    simp [State.group, State.alternative]

/-! ## Matching -/

/-- Whether a text begins with the items. The flag says that nothing stands before it. -/
def beginsWith : List Item → Bool → List Char → Bool
  | [], _, _ => true
  | .start :: is, first, s => first && beginsWith is first s
  | .stop :: is, first, s => s.isEmpty && beginsWith is first s
  | .lit c :: is, _, x :: s => x == c && beginsWith is false s
  | .any :: is, _, x :: s => x != '\n' && beginsWith is false s
  | _ :: _, _, [] => false

theorem ends_items (is : List Item) (p : Pos) :
    ((sequence (is.map Item.re)).ends p).isEmpty = !beginsWith is p.past.isEmpty p.future := by
  induction is generalizing p with
  | nil => rfl
  | cons i is ih =>
    have hstep : (sequence ((i :: is).map Item.re)).ends p =
        (i.re.ends p).flatMap (sequence (is.map Item.re)).ends := rfl
    rw [hstep]
    rcases p with ⟨past, _ | ⟨x, s⟩⟩ <;> cases i <;>
      simp only [Item.re, Re.ends, Assertion.holds, beginsWith]
    all_goals first
      | rfl
      | split_ifs <;> simp_all [Char.toNat_inj]

theorem matchString_items (is : List Item) (s : Bytes) :
    (sequence (is.map Item.re)).matchString s =
      (places [] (chars s)).any fun p => beginsWith is p.past.isEmpty p.future := by
  simp [Re.matchString, ends_items]

theorem past_ne_nil {c : Char} {past s : List Char} {p : Pos} (h : p ∈ places (c :: past) s) :
    p.past ≠ [] := by
  induction s generalizing c past with
  | nil =>
    obtain rfl := mem_singleton.1 h
    exact cons_ne_nil _ _
  | cons d s ih =>
    rcases mem_cons.1 h with rfl | h
    · exact cons_ne_nil _ _
    · exact ih h

/-- An expression that starts with a caret is tried at the beginning of the text only. -/
theorem matchString_start (is : List Item) (s : Bytes) :
    (sequence ((.start :: is).map Item.re)).matchString s = beginsWith is true (chars s) := by
  rw [matchString_items]
  cases chars s with
  | nil => simp [places, beginsWith]
  | cons c s' =>
    rw [places, any_cons, any_eq_false.2 fun p hp => by simp [beginsWith, past_ne_nil hp]]
    simp [beginsWith]

theorem beginsWith_lits (lit : List Char) (first : Bool) (s : List Char) :
    beginsWith (lit.map .lit) first s ↔ lit <+: s := by
  induction lit generalizing first s with
  | nil => simp [beginsWith]
  | cons c lit ih => cases s <;> simp [beginsWith, ih, cons_prefix_cons, eq_comm (a := c)]

theorem beginsWith_lits_stop (lit : List Char) (first : Bool) (s : List Char) :
    beginsWith (lit.map .lit ++ [.stop]) first s ↔ s = lit := by
  induction lit generalizing first s with
  | nil => simp [beginsWith]
  | cons c lit ih => cases s <;> simp [beginsWith, ih]

theorem matchString_exact {re : Re} (hc : compile t (utf8 ('^' :: body ++ ['$'])) = some re)
    (h : literalText body = some lit) (hplain : plainEscapes body) (herr : errorMark ∉ lit)
    (s : Bytes) :
    re.matchString s ↔ s = utf8 lit := by
  have hitems : items ('^' :: body ++ ['$']) = some (.start :: (lit.map .lit ++ [.stop])) := by
    rw [cons_append, items_cons (by decide), items_of_literalText h hplain]
    rfl
  rw [compile_items hc hitems, matchString_start, beginsWith_lits_stop]
  refine ⟨fun heq => ?_, fun heq => ?_⟩
  · obtain ⟨rest, hs, hrest⟩ := exists_utf8_append (heq.trans (append_nil lit).symm) herr
    cases rest with
    | nil => simpa using hs
    | cons b rest => rw [chars] at hrest; cases hrest
  · simpa [heq] using chars_utf8_append lit []

theorem prefix_of_matchString {re : Re} (hc : compile t (utf8 ('^' :: body)) = some re)
    (h : literalText body = some lit) (hplain : plainEscapes body) (herr : errorMark ∉ lit)
    {s : Bytes} (hmatch : re.matchString s) : utf8 lit <+: s := by
  have hitems : items ('^' :: body) = some (.start :: lit.map .lit) := by
    rw [items_cons (by decide), ← append_nil body, items_of_literalText h hplain]
    simp [items, Item.of]
  rw [compile_items hc hitems, matchString_start, beginsWith_lits] at hmatch
  obtain ⟨ds, hds⟩ := hmatch
  obtain ⟨rest, hrest, -⟩ := exists_utf8_append hds.symm herr
  exact ⟨rest, hrest.symm⟩

theorem beginsWith_starts (k : Nat) (is : List Item) (s : List Char) :
    beginsWith (replicate k .start ++ is) true s = beginsWith is true s := by
  induction k with
  | zero => rfl
  | succ k ih => exact ih

/-- Behind a character no caret matches. -/
theorem beginsWith_of_start_mem {is : List Item} (h : .start ∈ is) (s : List Char) :
    beginsWith is false s = false := by
  induction is generalizing s with
  | nil => cases h
  | cons i is ih =>
    rcases mem_cons.1 h with rfl | hmem
    · rfl
    · cases i <;> cases s <;> simp [beginsWith, ih hmem]

/-- An expression with a caret behind a character matches nothing. -/
theorem matchString_start_inside {c : Char} (hc : c ≠ '^' ∧ c ≠ '$') (k : Nat) {is : List Item}
    (h : .start ∈ is) (s : Bytes) :
    (sequence ((replicate k Item.start ++ Item.of c :: is).map Item.re)).matchString s = false := by
  rw [matchString_items, List.any_eq_false]
  intro p _
  rw [Bool.not_eq_true]
  induction k with
  | zero =>
    rw [replicate_zero, nil_append, Item.of, if_neg hc.1, if_neg hc.2]
    split_ifs <;> cases p.future <;> simp [beginsWith, beginsWith_of_start_mem h]
  | succ k ih => rw [replicate_succ, cons_append, beginsWith, ih, Bool.and_false]

/-- An expression matches a text behind one character. -/
theorem matchString_of_beginsWith {is : List Item} {w : List Char} (h : beginsWith is false w)
    {s : Bytes} {c : Char} (hs : chars s = c :: w) : (sequence (is.map Item.re)).matchString s := by
  rw [matchString_items, hs, places, any_cons]
  cases w <;> simp [places, h]

/-- A text that an expression without carets and escapes matches. -/
def fill (cs : List Char) : List Char := cs.map fun c => if c = '.' then 'x' else c

theorem beginsWith_fill {cs : List Char} (h : ∀ c ∈ cs, c ≠ '^' ∧ c ≠ '$') (first : Bool) :
    beginsWith (cs.map Item.of) first (fill cs) := by
  induction cs generalizing first with
  | nil => rfl
  | cons c cs ih =>
    obtain ⟨hcaret, hdollar⟩ := h c (.head _)
    have ih := ih (fun c hc => h c (.tail _ hc)) false
    rw [fill, map_cons, map_cons, ← fill, Item.of, if_neg hcaret, if_neg hdollar]
    split_ifs <;> simp [beginsWith, ih]

theorem dot_notMem_fill (cs : List Char) : '.' ∉ fill cs := by
  intro h
  obtain ⟨c, -, hc⟩ := mem_map.1 h
  split_ifs at hc with hdot
  · exact absurd hc (by decide)
  · exact hdot hc

theorem fill_eq {cs : List Char} (h : '.' ∉ cs) : fill cs = cs := by
  unfold fill
  conv_rhs => rw [← map_id cs]
  exact map_congr_left fun c hc => if_neg fun heq : c = '.' => h (heq ▸ hc)

end Bouine.Lib.Regexp
