import Bouine.Storage.BanReissue

/-! # Bans sent to Cloudflare

`internal/cloudflare/mapper.go` and `PropagateForBan`. A pattern without the metacharacters of the
mapper's list is taken for a literal, but the list lacks the dot and the caret, and a host pattern is
searched for where the purge asks for equality.
-/

namespace Bouine.Cloudflare

open Lib Lib.Regexp Storage List

def metaCharPattern : Bytes := ascii "+*?()|[]\x7b\x7d\\$"

def text (s : String) : Bytes := utf8 s.toList

/-- `SkipReason` is there exactly if the result is `Skipped`. A ban gives no URLs. -/
structure MapResult where
  skipReason : Option Bytes := none
  tags : List Bytes := []
  prefixes : List Bytes := []
  hosts : List Bytes := []

def mapSurrogateKey (key : Bytes) : MapResult :=
  if key = [] then { skipReason := text "empty surrogate key" } else { tags := [key] }

/-- `strings.TrimPrefix` of a caret. -/
def trimCaret (pattern : Bytes) : Bytes :=
  if pattern.head? = some (byte '^') then pattern.drop 1 else pattern

def mapPathRegex (pattern : Bytes) : MapResult :=
  if pattern = [] then { skipReason := text "empty path regex" }
  else
    let literal := trimCaret pattern
    if literal.getLast? = some (byte '$') then
      { skipReason := text "path_regex is a suffix anchor (ends with $) — cannot map to CF prefix: " ++ pattern }
    else if literal.any (· ∈ metaCharPattern) then
      { skipReason := text "path_regex contains metacharacters — cannot map to CF prefix: " ++ pattern }
    else { prefixes := [if literal = [] then ascii "/" else literal] }

/-- `strings.ReplaceAll` of an escaped dot. -/
def unescapeDots : Bytes → Bytes
  | [] => []
  | c :: s =>
    if c = byte '\\' ∧ s.head? = some (byte '.') then unescapeDots s else c :: unescapeDots s

def mapHostRegex (pattern : Bytes) : MapResult :=
  if pattern = [] then { skipReason := text "empty host regex" }
  else
    let literal := unescapeDots pattern
    if literal.any (· ∈ metaCharPattern) then
      { skipReason := text "host_regex contains metacharacters — cannot map to CF hostname: " ++ pattern }
    else if byte '^' ∈ literal then
      { skipReason := text "host_regex contains anchors — cannot map to CF hostname: " ++ pattern }
    else { hosts := [literal] }

def mergeResults (results : List MapResult) : MapResult :=
  ⟨results.findSome? (·.skipReason), results.flatMap (·.tags), results.flatMap (·.prefixes),
    results.flatMap (·.hosts)⟩

/-- What `PropagateForBan` sends, unless there is a reason to skip the ban. -/
def propagateForBan (expr : BanExpr) : MapResult :=
  if expr.surrogateKey ≠ [] then mapSurrogateKey expr.surrogateKey
  else if expr.pathRegex ≠ [] ∧ expr.hostRegex ≠ [] then
    let result := mergeResults [mapPathRegex expr.pathRegex, mapHostRegex expr.hostRegex]
    { result with skipReason := result.skipReason.map (text "compound ban (host AND path) — " ++ ·) }
  else if expr.pathRegex ≠ [] then mapPathRegex expr.pathRegex
  else if expr.hostRegex ≠ [] then mapHostRegex expr.hostRegex
  else {}

def MapResult.covers (r : MapResult) (obj : BanObject) : Bool :=
  r.tags.any (· ∈ obj.surrogateKeys) || r.prefixes.any (· <+: obj.path) || obj.host ∈ r.hosts

/-- What is left of a path pattern behind its carets. -/
def pathBody (pattern : Bytes) : List Char := (chars pattern).dropWhile (· == '^')

def carets (pattern : Bytes) : Nat := ((chars pattern).takeWhile (· == '^')).length

/-- A literal is compared as a whole, and a caret behind a character matches nothing. Behind a caret,
a pattern matches no path unless it starts with a slash or a dot; with one caret and no dot, it
matches the paths that start with it. -/
def PathExact (pattern : Bytes) : Prop :=
  isBanLiteral pattern ∨ '^' ∈ pathBody pattern ∨
    carets pattern ≠ 0 ∧ ((pathBody pattern).head? ∉ [none, some '/', some '.'] ∨
      carets pattern = 1 ∧ '.' ∉ pathBody pattern ∧ errorMark ∉ pathBody pattern)

/-- The ban has a key, or one of its patterns asks for no more than is sent. -/
def Exact (expr : BanExpr) : Prop :=
  expr.surrogateKey ≠ [] ∨ expr.pathRegex ≠ [] ∧ PathExact expr.pathRegex ∨
    expr.hostRegex ≠ [] ∧ isBanLiteral expr.hostRegex

variable {t : Tables} {obj : BanObject} {pattern lit value : Bytes} {re : Option Re}

/-! ## Path patterns -/

def sentPrefix (pattern : Bytes) : Bytes :=
  if trimCaret pattern = [] then ascii "/" else trimCaret pattern

theorem mapPathRegex_eq (hne : pattern ≠ []) (hsent : (mapPathRegex pattern).skipReason = none) :
    mapPathRegex pattern = { prefixes := [sentPrefix pattern] } ∧
      ∀ b ∈ trimCaret pattern, b ∉ metaCharPattern := by
  rw [mapPathRegex, if_neg hne, sentPrefix] at *
  dsimp only at hsent ⊢
  split_ifs at hsent ⊢ with hlast hmeta
  all_goals exact ⟨rfl, by simpa using hmeta⟩

theorem chars_eq (pattern : Bytes) :
    chars pattern = replicate (carets pattern) '^' ++ pathBody pattern := by
  have hcarets : (chars pattern).takeWhile (· == '^') = replicate (carets pattern) '^' := by
    refine eq_replicate_of_mem fun c hc => ?_
    simpa using mem_takeWhile_imp hc
  rw [← hcarets]
  exact takeWhile_append_dropWhile.symm

theorem head_pathBody (pattern : Bytes) : (pathBody pattern).head? ≠ some '^' := by
  intro h
  have := head?_dropWhile_not (· == '^') (chars pattern)
  rw [← pathBody, h] at this
  simp at this

theorem trimCaret_eq (hutf8 : utf8 (chars pattern) = pattern) :
    trimCaret pattern = utf8 (replicate (carets pattern - 1) '^' ++ pathBody pattern) := by
  have hcaret : encodeRune '^'.toNat = [byte '^'] := by decide
  rw [chars_eq] at hutf8
  cases hk : carets pattern with
  | zero =>
    rw [hk] at hutf8
    refine (if_neg fun hhead => ?_).trans hutf8.symm
    obtain ⟨s, hs⟩ := head?_eq_some_iff.1 hhead
    obtain ⟨ds, hds, -⟩ := utf8_eq_cons (hutf8.trans hs) (by decide)
    exact head_pathBody pattern (by rw [show pathBody pattern = _ from hds]; rfl)
  | succ k =>
    rw [hk, replicate_succ, cons_append, utf8_cons, hcaret] at hutf8
    generalize pathBody pattern = body at hutf8
    rw [trimCaret, ← hutf8]
    rfl

theorem byte_of_isMeta {c : Char} (h : isMeta c) :
    (c = '.' ∨ c = '^') ∨ byte c ∈ metaCharPattern := by
  have hlist : ['\\', '.', '+', '*', '?', '(', ')', '|', '[', ']', '{', '}', '^', '$'].all
      (fun d => (d = '.' ∨ d = '^') ∨ byte d ∈ metaCharPattern) = true := by decide
  exact of_decide_eq_true (all_eq_true.1 hlist c (of_decide_eq_true h))

/-- A path pattern that is sent is a sequence of characters, dots and carets. -/
theorem compiled_path {re : Re} (hre : compile t pattern = some re)
    (hmeta : ∀ b ∈ trimCaret pattern, b ∉ metaCharPattern) :
    (∀ c ∈ pathBody pattern, isMeta c → c = '.' ∨ c = '^') ∧
      re = sequence ((replicate (carets pattern) Item.start ++
        (pathBody pattern).map Item.of).map Item.re) := by
  have hutf8 := utf8_chars_of_compile hre
  have hbody : ∀ c ∈ pathBody pattern, isMeta c → c = '.' ∨ c = '^' := by
    intro c hc hm
    refine (byte_of_isMeta hm).resolve_right (hmeta _ ?_)
    rw [trimCaret_eq hutf8]
    exact byte_mem_utf8 (toNat_lt_of_isMeta hm) (mem_append_right _ hc)
  have hitem : ∀ c ∈ chars pattern, isItem c := by
    intro c hc
    by_cases hm : isMeta c
    · rw [chars_eq] at hc
      rcases (mem_append.1 hc).elim (.inr ∘ eq_of_mem_replicate) (hbody c · hm) with rfl | rfl <;> rfl
    · simp [isItem, hm]
  rw [← hutf8] at hre
  have hre := compile_items hre (items_map hitem)
  rw [chars_eq, map_append, map_replicate] at hre
  exact ⟨hbody, hre⟩

theorem ne_dollar (hbody : ∀ c ∈ pathBody pattern, isMeta c → c = '.' ∨ c = '^') :
    ∀ c ∈ pathBody pattern, c ≠ '$' := by
  rintro c hc rfl
  exact absurd (hbody _ hc rfl) (by decide)

theorem chars_utf8 (w : List Char) : chars (utf8 w) = w := by simpa using chars_utf8_append w []

theorem chars_invalid (s : Bytes) : chars (0xFF :: s) = errorMark :: chars s := by
  rw [chars, runes_cons]
  rfl

/-- A dot of the pattern is in the prefix and not in the path. -/
theorem not_prefix_of_dot (hutf8 : utf8 (chars pattern) = pattern) {w : List Char}
    (h : '.' ∈ pathBody pattern) (hw : '.' ∉ w) : ¬ sentPrefix pattern <+: utf8 w := by
  intro hpre
  have hbyte : byte '.' ∈ trimCaret pattern := by
    rw [trimCaret_eq hutf8]
    exact byte_mem_utf8 (by decide) (mem_append_right _ h)
  rw [sentPrefix, if_neg (ne_nil_of_mem hbyte)] at hpre
  exact hw (mem_of_byte_mem_utf8 (by decide) (hpre.subset hbyte))

theorem dot_mem_pathBody (hutf8 : utf8 (chars pattern) = pattern)
    (hbody : ∀ c ∈ pathBody pattern, isMeta c → c = '.' ∨ c = '^') (hlit : ¬ isBanLiteral pattern)
    (hcaret : '^' ∉ pathBody pattern) (hk : carets pattern = 0) : '.' ∈ pathBody pattern := by
  have hall : regexpMetachars.all (fun b => isMeta (Char.ofNat b.toNat)) = true := by decide
  rw [Bool.not_eq_true, isBanLiteral, Bool.not_eq_false', any_eq_true] at hlit
  obtain ⟨b, hb, hm⟩ := hlit
  have hm := of_decide_eq_true hm
  have hc := mem_of_byte_mem_utf8 (toNat_lt_of_mem_regexpMetachars hm) (hutf8.symm ▸ hb)
  rw [chars_eq, hk, replicate_zero, nil_append] at hc
  rcases hbody _ hc (all_eq_true.1 hall b hm) with heq | heq
  · exact heq ▸ hc
  · exact absurd (heq ▸ hc) hcaret

/-- Behind carets, a slash and the rest of the pattern match. -/
theorem anchored_matches {body : List Char} (hbody : ∀ c ∈ body, c ≠ '^' ∧ c ≠ '$')
    (hhead : body.head? ∈ [none, some '/', some '.']) (k : Nat) (path : Bytes)
    (hpath : chars path = '/' :: fill body.tail) :
    (sequence ((replicate (k + 1) Item.start ++ body.map Item.of).map Item.re)).matchString path := by
  rw [replicate_succ, cons_append, matchString_start, beginsWith_starts, hpath]
  cases body with
  | nil => rfl
  | cons c body =>
    have hrest := beginsWith_fill (fun c hc => hbody c (.tail _ hc)) false
    rcases (by simpa using hhead : c = '/' ∨ c = '.') with rfl | rfl <;>
      simpa [Item.of, beginsWith] using hrest

/-- The mark of the pattern is also what a byte that is not UTF-8 is read as. -/
theorem mark_missed (hutf8 : utf8 (chars pattern) = pattern) (hk : carets pattern = 1)
    (hhead : (pathBody pattern).head? ∈ [none, some '/', some '.']) (hdot : '.' ∉ pathBody pattern)
    (hmark : errorMark ∈ pathBody pattern) {re : Re}
    (hmatch : ∀ path, chars path = '/' :: fill (pathBody pattern).tail → re.matchString path) :
    ∃ path : Bytes, path.head? = some (byte '/') ∧ re.matchString path ∧
      ¬ sentPrefix pattern <+: path := by
  have htrim := trimCaret_eq hutf8
  rw [hk] at htrim
  obtain ⟨before, after, hbody⟩ := append_of_mem hmark
  cases before with
  | nil =>
    have hne : some errorMark ∉ [none, some '/', some '.'] := by decide
    rw [hbody] at hhead
    exact absurd hhead hne
  | cons c before =>
    obtain rfl : c = '/' := by
      have hc : c ≠ '.' := fun heq => hdot (hbody ▸ heq ▸ .head _)
      simpa [hbody, hc] using hhead
    refine ⟨utf8 ('/' :: before) ++ 0xFF :: utf8 after, rfl, hmatch _ ?_, fun hpre => ?_⟩
    · rw [fill_eq fun h => hdot (mem_of_mem_tail h), hbody, chars_utf8_append, chars_invalid,
        chars_utf8]
      rfl
    · have hbytes : sentPrefix pattern = utf8 ('/' :: before) ++ (encodeRune 0xFFFD ++ utf8 after) := by
        rw [sentPrefix, htrim, hbody]
        exact utf8_append ('/' :: before) (errorMark :: after)
      rw [hbytes, prefix_append_right_inj] at hpre
      exact absurd (cons_prefix_cons.1 hpre).1 (by decide)

/-- If a sent path pattern is not exact, it matches a path that the prefix does not cover. -/
theorem path_missed (hc : compileBanPattern t pattern = some (re, lit)) (hne : pattern ≠ [])
    (hmeta : ∀ b ∈ trimCaret pattern, b ∉ metaCharPattern) (hexact : ¬ PathExact pattern) :
    ∃ path : Bytes, path.head? = some (byte '/') ∧ banPatternMatches t pattern path ∧
      ¬ sentPrefix pattern <+: path := by
  obtain ⟨re', hre, hmatch⟩ := compiled_regexp hc hne fun hlit => hexact (.inl hlit)
  simp only [hmatch]
  have hutf8 := utf8_chars_of_compile hre
  obtain ⟨hbody, rfl⟩ := compiled_path hre hmeta
  simp only [PathExact, not_or, not_and_or, not_not] at hexact
  obtain ⟨hlit, hcaret, hshape⟩ := hexact
  have hnodot : ∀ cs, '.' ∉ '/' :: fill cs := by simp [dot_notMem_fill]
  have hplain : ∀ c ∈ pathBody pattern, c ≠ '^' ∧ c ≠ '$' :=
    fun c hc => ⟨fun heq => hcaret (heq ▸ hc), ne_dollar hbody c hc⟩
  cases hk : carets pattern with
  | zero =>
    have hdot := dot_mem_pathBody hutf8 hbody hlit hcaret hk
    refine ⟨utf8 ('/' :: fill (pathBody pattern)), rfl, ?_, not_prefix_of_dot hutf8 hdot (hnodot _)⟩
    exact matchString_of_beginsWith (beginsWith_fill hplain false) (chars_utf8 _)
  | succ k =>
    obtain ⟨hhead, hmore⟩ := hshape.resolve_left (by omega)
    have hslash := anchored_matches hplain hhead k
    by_cases hdot : '.' ∈ pathBody pattern
    · exact ⟨_, rfl, hslash _ (chars_utf8 _), not_prefix_of_dot hutf8 hdot (hnodot _)⟩
    rcases Nat.eq_zero_or_pos k with rfl | hpos
    · exact mark_missed hutf8 hk hhead hdot ((hmore.resolve_left (not_not.2 hk)).resolve_left hdot) hslash
    · refine ⟨_, rfl, hslash _ (chars_utf8 _), fun hpre => ?_⟩
      obtain ⟨j, rfl⟩ : ∃ j, k = j + 1 := ⟨k - 1, by omega⟩
      have htrim : trimCaret pattern = byte '^' :: utf8 (replicate j '^' ++ pathBody pattern) := by
        rw [trimCaret_eq hutf8, hk]
        rfl
      rw [sentPrefix, htrim, if_neg (cons_ne_nil _ _)] at hpre
      exact absurd (cons_prefix_cons.1 hpre).1 (by decide)

/-- What an exact path pattern matches, the prefix covers. -/
theorem path_covered (hc : compileBanPattern t pattern = some (re, lit)) (hne : pattern ≠ [])
    (hmeta : ∀ b ∈ trimCaret pattern, b ∉ metaCharPattern) (hexact : PathExact pattern)
    (hpath : value.head? = some (byte '/')) (h : banPatternMatches t pattern value) :
    sentPrefix pattern <+: value := by
  obtain ⟨rest, rfl⟩ := head?_eq_some_iff.1 hpath
  by_cases hlit : isBanLiteral pattern
  · rw [banPatternMatches, if_pos ⟨hne, hlit⟩, beq_iff_eq] at h
    rw [sentPrefix, trimCaret, if_neg (isAnchored_of_isBanLiteral hlit), if_neg hne, h]
  obtain ⟨re', hre, hmatch⟩ := compiled_regexp hc hne hlit
  rw [hmatch] at h
  have hutf8 := utf8_chars_of_compile hre
  obtain ⟨hbody, rfl⟩ := compiled_path hre hmeta
  have hread : chars (byte '/' :: rest) = '/' :: chars rest := chars_utf8_append ['/'] rest
  by_cases hcaret : '^' ∈ pathBody pattern
  · have hfirst := head_pathBody pattern
    have hdollar := ne_dollar hbody
    cases hcs : pathBody pattern with
    | nil => rw [hcs] at hcaret; cases hcaret
    | cons c cs =>
      have hc : c ≠ '^' := by simpa [hcs] using hfirst
      have hinside : '^' ∈ cs := by simpa [hcs, hc.symm] using hcaret
      rw [hcs, map_cons, matchString_start_inside ⟨hc, hdollar c (hcs ▸ .head _)⟩ _
        (mem_map.2 ⟨'^', hinside, rfl⟩)] at h
      cases h
  obtain ⟨hk, hshape⟩ := (hexact.resolve_left hlit).resolve_left hcaret
  obtain ⟨k, hk⟩ : ∃ k, carets pattern = k + 1 := ⟨carets pattern - 1, by omega⟩
  rw [hk, replicate_succ, cons_append, matchString_start, beginsWith_starts, hread] at h
  have hof : ∀ c ∈ pathBody pattern, c ≠ '.' → Item.of c = .lit c := by
    refine fun c hc hdot => Item.of_eq_lit (Bool.eq_false_iff.2 fun hm => ?_)
    exact (hbody c hc hm).elim hdot fun heq => hcaret (heq ▸ hc)
  rcases hshape with hhead | ⟨hk1, hdot, hmark⟩
  · cases hcs : pathBody pattern with
    | nil => simp [hcs] at hhead
    | cons c cs =>
      have hc : c ≠ '/' ∧ c ≠ '.' := by simpa [hcs] using hhead
      rw [hcs, map_cons, hof c (hcs ▸ .head _) hc.2, beginsWith, Bool.and_eq_true, beq_iff_eq] at h
      exact absurd h.1.symm hc.1
  · rw [map_congr_left fun c hc => hof c hc fun heq => hdot (heq ▸ hc), beginsWith_lits, ← hread] at h
    obtain ⟨ds, hds⟩ := h
    obtain ⟨more, hmore, -⟩ := exists_utf8_append hds.symm hmark
    rw [sentPrefix]
    split_ifs
    · exact ⟨rest, rfl⟩
    · rw [trimCaret_eq hutf8, hk1, hmore]
      exact ⟨more, rfl⟩

/-! ## Host patterns -/

theorem unescapeDots_append {w : Bytes} (h : byte '\\' ∉ w) (s : Bytes) :
    unescapeDots (w ++ s) = w ++ unescapeDots s := by
  induction w with
  | nil => rfl
  | cons c w ih =>
    obtain ⟨hc, hw⟩ := not_or.1 (mem_cons.not.1 h)
    rw [cons_append, unescapeDots, if_neg fun hslash => hc hslash.1.symm, ih hw]
    rfl

theorem unescapeDots_of_isBanLiteral (h : isBanLiteral pattern) : unescapeDots pattern = pattern := by
  have hslash : byte '\\' ∉ pattern := by
    intro hmem
    rw [isBanLiteral, Bool.not_eq_true', any_eq_false] at h
    exact h _ hmem (by decide)
  simpa [unescapeDots] using unescapeDots_append hslash []

theorem mapHostRegex_eq (hne : pattern ≠ []) (hsent : (mapHostRegex pattern).skipReason = none) :
    mapHostRegex pattern = { hosts := [unescapeDots pattern] } ∧
      ∀ b ∈ unescapeDots pattern, b ∉ metaCharPattern ∧ b ≠ byte '^' := by
  rw [mapHostRegex, if_neg hne] at *
  dsimp only at hsent ⊢
  split_ifs at hsent ⊢ with hmeta hcaret
  refine ⟨rfl, fun b hb => ⟨?_, fun heq => hcaret (heq ▸ hb)⟩⟩
  simp only [any_eq_true, decide_eq_true_eq, not_exists, not_and] at hmeta
  exact hmeta b hb

theorem unescapeDots_char {c : Char} (hc : c ≠ '\\') (s : List Char) :
    unescapeDots (utf8 (c :: s)) = encodeRune c.toNat ++ unescapeDots (utf8 s) := by
  refine unescapeDots_append (fun hmem => hc ?_) _
  have hmem : byte '\\' ∈ utf8 [c] := by simpa using hmem
  exact (mem_singleton.1 (mem_of_byte_mem_utf8 (by decide) hmem)).symm

theorem dot_of_escape {d : Char} {s : List Char}
    (h : byte '\\' ∉ unescapeDots (utf8 ('\\' :: d :: s))) : d = '.' := by
  by_contra hd
  have hbytes : utf8 ('\\' :: d :: s) = byte '\\' :: utf8 (d :: s) := rfl
  have hhead : (utf8 (d :: s)).head? ≠ some (byte '.') := by
    intro hhead
    obtain ⟨s', hs'⟩ := head?_eq_some_iff.1 hhead
    obtain ⟨ds, hds, -⟩ := utf8_eq_cons hs' (by decide)
    exact hd (cons.inj hds).1
  rw [hbytes, unescapeDots, if_neg fun hdot => hhead hdot.2] at h
  exact h (.head _)

/-- The pattern matches the hostname that is sent. -/
theorem host_items {cs : List Char}
    (h : ∀ b ∈ unescapeDots (utf8 cs), b ∉ metaCharPattern ∧ b ≠ byte '^') :
    ∃ is w, items cs = some is ∧ (∀ first, beginsWith is first w) ∧
      utf8 w = unescapeDots (utf8 cs) := by
  have hslash {s : Bytes} (h : ∀ b ∈ s, b ∉ metaCharPattern ∧ b ≠ byte '^') : byte '\\' ∉ s :=
    fun hb => (h _ hb).1 (by decide)
  fun_induction items cs with
  | case1 => exact ⟨[], [], rfl, fun _ => rfl, rfl⟩
  | case2 => exact absurd (.head _) (hslash h)
  | case3 d s hd =>
    rw [dot_of_escape (hslash h)] at hd
    cases hd
  | case4 d s hd ih =>
    obtain rfl := dot_of_escape (hslash h)
    have hdot : unescapeDots (utf8 ('\\' :: '.' :: s)) = byte '.' :: unescapeDots (utf8 s) := rfl
    rw [hdot] at h ⊢
    obtain ⟨is, w, his, hbegins, hw⟩ := ih fun b hb => h b (.tail _ hb)
    exact ⟨.lit '.' :: is, '.' :: w, by rw [his]; rfl, fun _ => hbegins false,
      by rw [utf8_cons, hw]; rfl⟩
  | case5 c s hne hitem ih =>
    rw [unescapeDots_char hne] at h ⊢
    obtain ⟨is, w, his, hbegins, hw⟩ := ih fun b hb => h b (mem_append_right _ hb)
    refine ⟨.of c :: is, c :: w, by rw [his]; rfl, fun first => ?_, by rw [utf8_cons, hw]⟩
    unfold Item.of
    split_ifs with hdot hcaret hdollar
    · simp [hdot, beginsWith, hbegins]
    · subst hcaret
      exact absurd rfl (h (byte '^') (mem_append_left _ (.head _))).2
    · subst hdollar
      exact absurd (by decide) (h (byte '$') (mem_append_left _ (.head _))).1
    · simp [beginsWith, hbegins]
  | case6 c s hne hitem =>
    obtain ⟨hmeta, hnot⟩ : isMeta c ∧ ¬ (c = '.' ∨ c = '^') := by simp_all [isItem]
    rw [unescapeDots_char hne, encodeRune_ascii (toNat_lt_of_isMeta hmeta)] at h
    exact absurd ((byte_of_isMeta hmeta).resolve_left hnot) (h _ (.head _)).1

/-- A sent host pattern that is not a literal also matches a longer host. -/
theorem host_missed (hc : compileBanPattern t pattern = some (re, lit)) (hne : pattern ≠ [])
    (hmeta : ∀ b ∈ unescapeDots pattern, b ∉ metaCharPattern ∧ b ≠ byte '^')
    (hlit : ¬ isBanLiteral pattern) :
    banPatternMatches t pattern (byte 'x' :: unescapeDots pattern) := by
  obtain ⟨re', hre, hmatch⟩ := compiled_regexp hc hne hlit
  have hutf8 := utf8_chars_of_compile hre
  rw [hmatch]
  rw [← hutf8] at hre hmeta ⊢
  obtain ⟨is, w, his, hbegins, hw⟩ := host_items hmeta
  rw [compile_items hre his, ← hw]
  exact matchString_of_beginsWith (hbegins false) (chars_utf8 ('x' :: w))

/-! ## Bans -/

/-- What is sent for a ban without a key. -/
theorem propagateForBan_covers_iff {expr : BanExpr} (hkey : expr.surrogateKey = [])
    (hsent : (propagateForBan expr).skipReason = none) :
    (expr.pathRegex ≠ [] → ∀ b ∈ trimCaret expr.pathRegex, b ∉ metaCharPattern) ∧
      (expr.hostRegex ≠ [] →
        ∀ b ∈ unescapeDots expr.hostRegex, b ∉ metaCharPattern ∧ b ≠ byte '^') ∧
      ∀ obj, (propagateForBan expr).covers obj ↔
        expr.pathRegex ≠ [] ∧ sentPrefix expr.pathRegex <+: obj.path ∨
          expr.hostRegex ≠ [] ∧ obj.host = unescapeDots expr.hostRegex := by
  rw [propagateForBan, if_neg (not_not.2 hkey)] at *
  split_ifs at hsent ⊢ with hboth hp hh
  · obtain ⟨hpsent, hhsent⟩ : (mapPathRegex expr.pathRegex).skipReason = none ∧
        (mapHostRegex expr.hostRegex).skipReason = none := by
      simpa [mergeResults] using hsent
    obtain ⟨hpath, hpmeta⟩ := mapPathRegex_eq hboth.1 hpsent
    obtain ⟨hhost, hhmeta⟩ := mapHostRegex_eq hboth.2 hhsent
    exact ⟨fun _ => hpmeta, fun _ => hhmeta, by simp [hpath, hhost, mergeResults, MapResult.covers, hboth]⟩
  · obtain ⟨hmap, hmeta⟩ := mapPathRegex_eq hp hsent
    have hh : ¬ expr.hostRegex ≠ [] := fun hh => hboth ⟨hp, hh⟩
    exact ⟨fun _ => hmeta, fun h => absurd h hh, by simp [hmap, MapResult.covers, hp, hh]⟩
  · obtain ⟨hmap, hmeta⟩ := mapHostRegex_eq hh hsent
    exact ⟨fun h => absurd h hp, fun _ => hmeta, by simp [hmap, MapResult.covers, hp, hh]⟩
  · exact ⟨fun h => absurd h hp, fun h => absurd h hh, by simp [MapResult.covers, hp, hh]⟩

/-- A ban that is sent covers every object it matches, the path of which starts with a slash,
exactly if it is exact. -/
theorem propagated_ban_covers_iff (expr : BanExpr) (pred : BanPredicate t)
    (hpred : compileBanPredicate t expr = some pred)
    (hsent : (propagateForBan expr).skipReason = none) :
    (∀ obj : BanObject, obj.path.head? = some (byte '/') → pred.holds obj →
      (propagateForBan expr).covers obj) ↔ Exact expr := by
  obtain rfl := compileBanPredicate_expr hpred
  by_cases hkey : pred.expr.surrogateKey = []
  · obtain ⟨hpmeta, hhmeta, hcovers⟩ := propagateForBan_covers_iff hkey hsent
    simp only [hcovers, pred.holds_iff, Exact, hkey, ne_eq, not_true_eq_false, false_or]
    refine ⟨fun h => ?_, fun hexact obj hpath hobj => ?_⟩
    · by_contra hnot
      rw [not_or] at hnot
      obtain ⟨path, hslash, hpath, hpmiss⟩ : ∃ path : Bytes, path.head? = some (byte '/') ∧
          banPatternMatches t pred.expr.pathRegex path ∧
          ¬ (pred.expr.pathRegex ≠ [] ∧ sentPrefix pred.expr.pathRegex <+: path) := by
        by_cases hp : pred.expr.pathRegex = []
        · exact ⟨ascii "/", rfl, by simp [banPatternMatches, regexpMatches, hp], fun h => h.1 hp⟩
        · obtain ⟨path, hslash, hmatch, hmiss⟩ := path_missed pred.path_compiled hp (hpmeta hp)
            fun hexact => hnot.1 ⟨hp, hexact⟩
          exact ⟨path, hslash, hmatch, fun h => hmiss h.2⟩
      obtain ⟨host, hhost, hhmiss⟩ : ∃ host, banPatternMatches t pred.expr.hostRegex host ∧
          ¬ (pred.expr.hostRegex ≠ [] ∧ host = unescapeDots pred.expr.hostRegex) := by
        by_cases hh : pred.expr.hostRegex = []
        · exact ⟨[], by simp [banPatternMatches, regexpMatches, hh], fun h => h.1 hh⟩
        · refine ⟨_, host_missed pred.host_compiled hh (hhmeta hh) fun hlit => hnot.2 ⟨hh, hlit⟩,
            fun h => ?_⟩
          simpa using congrArg length h.2
      have hcov := h ⟨pred.expr.createdAt, host, path, []⟩ hslash
        ⟨.inr le_rfl, hhost, hpath, .inl trivial⟩
      exact hcov.elim hpmiss hhmiss
    · obtain ⟨-, hhost, hmatch, -⟩ := hobj
      refine hexact.imp (fun h => ⟨h.1, ?_⟩) fun h => ⟨h.1, ?_⟩
      · exact path_covered pred.path_compiled h.1 (hpmeta h.1) h.2 hpath hmatch
      · rw [banPatternMatches, if_pos h, beq_iff_eq] at hhost
        rw [hhost, unescapeDots_of_isBanLiteral h.2]
  · refine ⟨fun _ => .inl hkey, fun _ obj _ hobj => ?_⟩
    have hmem := ((pred.holds_iff obj).1 hobj).2.2.2.resolve_left hkey
    simp [propagateForBan, hkey, MapResult.covers, mapSurrogateKey, hmem]

/-- A ban of `^/api/`. -/
theorem anchored_path_covered :
    (propagateForBan ⟨100, [], ascii "^/api/", []⟩).covers (storedPath 50 (ascii "/api/v1")) :=
  (propagated_ban_covers_iff (t := plainTables) _ ((compileBanPredicate _ _).get (by decide +kernel))
    (Option.some_get _).symm (by decide +kernel)).2 (.inr (.inl ⟨by decide, .inr (.inr
      ⟨by decide +kernel, .inr ⟨by decide +kernel, by decide +kernel, by decide +kernel⟩⟩)⟩)) _ rfl
    (by decide +kernel)

/-- The dot of a path pattern matches any byte, and a host pattern part of a host. -/
theorem dot_and_part_not_covered :
    let missed (expr : BanExpr) (obj : BanObject) : Prop :=
      (compileBanPredicate plainTables expr).any (·.holds obj) ∧
        (propagateForBan expr).skipReason = none ∧ (propagateForBan expr).covers obj = false
    missed ⟨100, [], ascii "^/a.b", []⟩ (storedPath 50 (ascii "/axb")) ∧
      missed ⟨100, ascii "ample.com", [], []⟩ (storedPath 50 (ascii "/")) := by
  decide

end Bouine.Cloudflare
