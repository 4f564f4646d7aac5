import Mathlib.Data.Set.List
import Bouine.Server.Parser

/-! # What the parser accepts, read by the RFC

An RFC 9112 reading of a buffer writes it as lines, an empty line and the rest (`RfcHead`); a front
proxy relies on the field lines found that way. The parser looks for fewer things than the RFC asks
for: this file says which of the accepted buffers another reader frames in the same way.
-/

namespace Bouine.Server

open Lib List Bool

/-! ## The RFC's reading -/

def joinLines (ls : List Bytes) : Bytes := ls.flatMap (· ++ crlf)

/-- No byte that ends a line for some reader. -/
def Unbroken (l : Bytes) : Prop := cr ∉ l ∧ lf ∉ l ∧ 0 ∉ l

/-- The buffer is a request line, field lines, an empty line and the rest. -/
structure RfcHead (buf requestLine : Bytes) (fields : List Bytes) (rest : Bytes) : Prop where
  split : buf = joinLines (requestLine :: fields) ++ crlf ++ rest
  line_ok : ∀ l ∈ requestLine :: fields, l ≠ [] ∧ Unbroken l

def isTchar (c : UInt8) : Bool :=
  byte 'a' ≤ c && c ≤ byte 'z' || byte 'A' ≤ c && c ≤ byte 'Z' || byte '0' ≤ c && c ≤ byte '9' ||
    c ∈ ascii "!#$%&'*+-.^_`|~"

/-- A field line of the grammar. -/
structure RfcField where
  name : Bytes
  value : Bytes
  name_ne_nil : name ≠ []
  token : ∀ c ∈ name, isTchar c

def RfcField.line (f : RfcField) : Bytes := f.name ++ byte ':' :: f.value

/-- An RFC 9112 reading finds a head without framing fields and with one host, and the given bytes
after it. -/
def ReadsByRfc (buf excess : Bytes) : Prop :=
  ∃ requestLine, ∃ fields : List RfcField,
    RfcHead buf requestLine (fields.map RfcField.line) excess ∧
    (∀ f ∈ fields, equalFold f.name (ascii "Content-Length") = false ∧
      equalFold f.name (ascii "Transfer-Encoding") = false) ∧
    fields.countP (fun f => equalFold f.name (ascii "Host")) = 1

/-! ## What the parser does not look at -/

def fieldLines (buf : Bytes) : List Bytes := (headerLines buf).takeWhile (· ≠ [])

def fieldName (line : Bytes) : Bytes := (cutAt (byte ':') line).1

def isField (name line : Bytes) : Bool := equalFold (fieldName line) name

/-- The first byte that is not of a token is a colon, and not the first of all. -/
def TokenThenColon (line : Bytes) : Prop :=
  line.head? ≠ some (byte ':') ∧ (line.dropWhile isTchar).head? = some (byte ':')

/-- There is an empty line; no stray byte ends a line before it; and the lines of fields begin with a
token and a colon, one of them with that of the host. -/
def StrictLines (buf : Bytes) : Prop :=
  [] ∈ headerLines buf ∧ Unbroken (buf.takeWhile (· != cr)) ∧
    (∀ l ∈ fieldLines buf, Unbroken l ∧ TokenThenColon l) ∧
    (fieldLines buf).countP (isField (ascii "Host")) = 1

instance (l : Bytes) : Decidable (Unbroken l) := inferInstanceAs (Decidable (_ ∧ _ ∧ _))

instance (l : Bytes) : Decidable (TokenThenColon l) := inferInstanceAs (Decidable (_ ∧ _))

instance (buf : Bytes) : Decidable (StrictLines buf) := inferInstanceAs (Decidable (_ ∧ _ ∧ _ ∧ _))

theorem Unbroken.noBreak {l : Bytes} (h : Unbroken l) : ¬ crlf <:+: l :=
  fun hsub => h.1 (hsub.subset (by simp [crlf]))

theorem RfcField.colon_notMem (f : RfcField) : byte ':' ∉ f.name :=
  fun h => absurd (f.token _ h) (by decide)

theorem RfcField.isField_line (f : RfcField) (name : Bytes) :
    isField name f.line = equalFold f.name name := by
  rw [isField, fieldName, line, cutAt_append f.colon_notMem]

theorem RfcField.tokenThenColon_line (f : RfcField) : TokenThenColon f.line := by
  have hcolon : isTchar (byte ':') = false := by decide
  constructor
  · intro hhead
    obtain ⟨c, name, hname⟩ := exists_cons_of_ne_nil f.name_ne_nil
    rw [line, hname] at hhead
    exact f.colon_notMem (by simp [hname, Option.some.inj hhead])
  · rw [line, dropWhile_append_of_pos f.token, dropWhile_cons_of_neg (by simp [hcolon])]
    rfl

theorem exists_rfcField {l : Bytes} (h : TokenThenColon l) : ∃ f : RfcField, f.line = l := by
  obtain ⟨hhead, hcolon⟩ := h
  obtain ⟨value, hvalue⟩ : ∃ value, l.dropWhile isTchar = byte ':' :: value := by
    cases hdrop : l.dropWhile isTchar with
    | nil => simp [hdrop] at hcolon
    | cons c value => exact ⟨value, by simpa [hdrop] using hcolon⟩
  have hl : l.takeWhile isTchar ++ byte ':' :: value = l := by
    rw [← hvalue, takeWhile_append_dropWhile]
  refine ⟨⟨l.takeWhile isTchar, value, fun hnil => hhead ?_, fun c hc => mem_takeWhile_imp hc⟩, hl⟩
  rw [← hl, hnil]
  rfl

/-! ## Lines -/

variable {ls : List Bytes} {l : Bytes}

theorem not_infix_cons {c : UInt8} (h : ¬ crlf <:+: c :: l) : ¬ crlf <:+: l :=
  fun hl => h (hl.trans (suffix_cons c l).isInfix)

theorem crlfLines_append (h : ¬ crlf <:+: l) (s : Bytes) :
    crlfLines (l ++ crlf ++ s) = l :: crlfLines s := by
  induction l with
  | nil => simp [crlf, crlfLines]
  | cons c l ih =>
    have ih' := ih (not_infix_cons h)
    cases l with
    | nil =>
      have hne : ¬ (c = cr ∧ cr = lf) := fun hc => absurd hc.2 (by decide)
      simp only [cons_append, nil_append, crlf] at ih' ⊢
      rw [crlfLines, if_neg hne, ih']
    | cons d l =>
      have hne : ¬ (c = cr ∧ d = lf) := by
        rintro ⟨rfl, rfl⟩
        exact h ⟨[], l, rfl⟩
      simp only [cons_append] at ih' ⊢
      rw [crlfLines, if_neg hne, ih']

theorem crlfLines_cons {buf l : Bytes} (h : crlfLines buf = l :: ls) :
    ∃ s, buf = l ++ crlf ++ s ∧ crlfLines s = ls := by
  induction buf generalizing l with
  | nil => simp [crlfLines] at h
  | cons c buf ih =>
    cases buf with
    | nil => simp [crlfLines] at h
    | cons d buf =>
      rw [crlfLines] at h
      split_ifs at h with hend
      · obtain ⟨rfl, rfl⟩ := hend
        obtain ⟨rfl, rfl⟩ := cons.inj h
        exact ⟨buf, rfl, rfl⟩
      · split at h
        · cases h
        · rename_i l' ls' hrest
          obtain ⟨rfl, rfl⟩ := cons.inj h
          obtain ⟨s, hs, hls⟩ := ih hrest
          exact ⟨s, by rw [hs]; rfl, hls⟩

theorem joinLines_cons (l : Bytes) (ls : List Bytes) (s : Bytes) :
    joinLines (l :: ls) ++ crlf ++ s = l ++ crlf ++ (joinLines ls ++ crlf ++ s) := by
  simp [joinLines]

theorem crlfLines_joinLines (h : ∀ l ∈ ls, ¬ crlf <:+: l) (s : Bytes) :
    crlfLines (joinLines ls ++ crlf ++ s) = ls ++ [] :: crlfLines s := by
  induction ls with
  | nil => exact crlfLines_append (show ¬ crlf <:+: [] by simp [crlf]) s
  | cons l ls ih =>
    rw [joinLines_cons, crlfLines_append (h l (by simp)), ih fun l' hl' => h l' (.tail _ hl')]
    rfl

variable {buf : Bytes}

theorem joinLines_of_crlfLines {ls more : List Bytes}
    (h : crlfLines buf = ls ++ [] :: more) : ∃ rest, buf = joinLines ls ++ crlf ++ rest := by
  induction ls generalizing buf with
  | nil =>
    obtain ⟨rest, hrest, -⟩ := crlfLines_cons h
    exact ⟨rest, hrest⟩
  | cons l ls ih =>
    obtain ⟨s, rfl, hs⟩ := crlfLines_cons h
    obtain ⟨rest, rfl⟩ := ih hs
    exact ⟨rest, (joinLines_cons l ls rest).symm⟩

/-! ## The end of the head -/

theorem crlf_not_initial (hne : l ≠ []) (h : ¬ crlf <:+: l) (s : Bytes) :
    ¬ crlf <+: l ++ crlf ++ s := by
  rintro ⟨t, ht⟩
  obtain ⟨c, l, rfl⟩ := exists_cons_of_ne_nil hne
  obtain ⟨rfl, htail⟩ := cons.inj ht
  cases l with
  | nil => exact absurd (cons.inj htail).1 (by decide)
  | cons d l =>
    obtain ⟨rfl, -⟩ := cons.inj htail
    exact h ⟨[], l, rfl⟩

theorem findHeaderEnd_line (h : ¬ crlf <:+: l) (s : Bytes) :
    findHeaderEnd (l ++ crlf ++ s) =
      if crlf.isPrefixOf s then some (l.length + 4)
      else (findHeaderEnd s).map (· + (l.length + 2)) := by
  induction l with
  | nil =>
    have hlf : ∀ s' : Bytes, (crlf ++ crlf).isPrefixOf (lf :: s') = false := fun _ => rfl
    have hpre : (crlf ++ crlf).isPrefixOf (cr :: lf :: s) = crlf.isPrefixOf s := by
      simp [crlf]
    show findHeaderEnd (cr :: lf :: s) = _
    rw [findHeaderEnd, hpre, findHeaderEnd, hlf]
    simp [Function.comp_def]
  | cons c l ih =>
    have ih' := ih (not_infix_cons h)
    have hnot : (crlf ++ crlf).isPrefixOf (c :: (l ++ crlf ++ s)) = false := by
      rw [eq_false_iff, ne_eq, isPrefixOf_iff_prefix]
      exact fun hpre => crlf_not_initial (cons_ne_nil c l) h s ((prefix_append _ _).trans hpre)
    rw [cons_append, cons_append, findHeaderEnd, hnot, if_neg Bool.false_ne_true, ih']
    split_ifs
    · rw [Option.map_some, length_cons]
    · rw [Option.map_map]
      rfl

theorem findHeaderEnd_joinLines (h : ∀ l' ∈ l :: ls, l' ≠ [] ∧ ¬ crlf <:+: l') (rest : Bytes) :
    findHeaderEnd (joinLines (l :: ls) ++ crlf ++ rest) =
      some (joinLines (l :: ls) ++ crlf).length := by
  induction ls generalizing l with
  | nil =>
    rw [joinLines_cons, findHeaderEnd_line (h l (by simp)).2]
    simp [joinLines, crlf]
  | cons l' ls ih =>
    have ih' := ih fun x hx => h x (.tail _ hx)
    have hpre : crlf.isPrefixOf (joinLines (l' :: ls) ++ crlf ++ rest) = false := by
      have hl' := h l' (by simp)
      rw [joinLines_cons, eq_false_iff, ne_eq, isPrefixOf_iff_prefix]
      exact crlf_not_initial hl'.1 hl'.2 _
    rw [joinLines_cons, findHeaderEnd_line (h l (by simp)).2, hpre, ih']
    simp [joinLines, crlf]
    omega

theorem findHeaderEnd_rfcHead {buf requestLine rest : Bytes} {fields : List Bytes}
    (h : RfcHead buf requestLine fields rest) :
    ∃ n, findHeaderEnd buf = some n ∧ buf.drop n = rest := by
  obtain ⟨rfl, hok⟩ := h
  refine ⟨_, findHeaderEnd_joinLines (fun l hl => ?_) rest, drop_left⟩
  exact (hok l hl).imp_right Unbroken.noBreak

/-! ## The fields -/

theorem headerLines_rfcHead {buf requestLine rest : Bytes} {fields : List Bytes}
    (h : RfcHead buf requestLine fields rest) :
    [] ∈ headerLines buf ∧ fieldLines buf = fields := by
  obtain ⟨rfl, hok⟩ := h
  have hlines : headerLines (joinLines (requestLine :: fields) ++ crlf ++ rest) =
      fields ++ [] :: crlfLines rest := by
    rw [headerLines, crlfLines_joinLines fun l hl => (hok l hl).2.noBreak]
    rfl
  have hne : ∀ f ∈ fields, decide (f ≠ []) = true := fun f hf =>
    decide_eq_true (hok f (.tail _ hf)).1
  rw [fieldLines, hlines]
  refine ⟨by simp, ?_⟩
  rw [takeWhile_append_of_pos hne]
  simp

theorem eq_takeWhile_append (h : [] ∈ ls) : ∃ more, ls = ls.takeWhile (· ≠ []) ++ [] :: more := by
  induction ls with
  | nil => simp at h
  | cons l ls ih =>
    by_cases hl : l = []
    · exact ⟨ls, by simp [hl]⟩
    · obtain ⟨more, hmore⟩ := ih ((mem_cons.1 h).resolve_left (Ne.symm hl))
      refine ⟨more, ?_⟩
      rw [takeWhile_cons_of_pos (by simpa using hl), cons_append, ← hmore]

theorem exists_rfcHead {buf requestLine : Bytes} (hfirst : (crlfLines buf).head? = some requestLine)
    (hne : requestLine ≠ []) (hend : [] ∈ headerLines buf)
    (hok : ∀ l ∈ requestLine :: fieldLines buf, Unbroken l) :
    ∃ rest, RfcHead buf requestLine (fieldLines buf) rest := by
  cases hlines : crlfLines buf with
  | nil => simp [hlines] at hfirst
  | cons l ls =>
    obtain rfl : l = requestLine := by simpa [hlines] using hfirst
    have hheader : headerLines buf = ls := by rw [headerLines, hlines, tail_cons]
    rw [hheader] at hend
    obtain ⟨more, hmore⟩ := eq_takeWhile_append hend
    have hfields : fieldLines buf = ls.takeWhile (· ≠ []) := by rw [fieldLines, hheader]
    rw [← hfields] at hmore
    obtain ⟨rest, hrest⟩ := joinLines_of_crlfLines
      (show crlfLines buf = (l :: fieldLines buf) ++ [] :: more from
        hlines.trans (congrArg (l :: ·) hmore))
    refine ⟨rest, hrest, fun l' hl' => ⟨?_, hok l' hl'⟩⟩
    rcases mem_cons.1 hl' with rfl | hl'
    · exact hne
    · simpa using mem_takeWhile_imp hl'

/-! ## What the scan flags say -/

theorem scanFlagForHeader_framing (key value : Bytes) :
    (scanFlagForHeader key value).hasCL = equalFold key (ascii "Content-Length") ∧
      (scanFlagForHeader key value).hasTE = equalFold key (ascii "Transfer-Encoding") := by
  have hfold : ∀ name, equalFold key name → equalFold key = equalFold name := by
    intro name h
    funext x
    rw [equalFold, equalFold, show toLower key = toLower name by simpa [equalFold] using h]
  cases hcl : equalFold key (ascii "Content-Length") with
  | true =>
    rw [scanFlagForHeader, hfold _ hcl]
    exact ⟨rfl, rfl⟩
  | false =>
    cases hte : equalFold key (ascii "Transfer-Encoding") with
    | true =>
      rw [scanFlagForHeader, hfold _ hte]
      exact ⟨rfl, rfl⟩
    | false =>
      unfold scanFlagForHeader
      split_ifs <;> first | exact ⟨rfl, rfl⟩ | simp_all

theorem appendHeader_flags (req : RawRequest) (line : Bytes) :
    (appendHeader req line).scanFlags.hasCL = (req.scanFlags.hasCL ||
        (decide (byte ':' ∈ line) && isField (ascii "Content-Length") line)) ∧
      (appendHeader req line).scanFlags.hasTE = (req.scanFlags.hasTE ||
        (decide (byte ':' ∈ line) && isField (ascii "Transfer-Encoding") line)) := by
  unfold appendHeader
  by_cases hcolon : byte ':' ∈ line
  · rw [if_neg (not_not.2 hcolon)]
    simp only [hcolon, isField, fieldName]
    have hflags := scanFlagForHeader_framing (cutAt (byte ':') line).1
      ((cutAt (byte ':') line).2.dropWhile isOWS)
    rw [← hflags.1, ← hflags.2]
    split_ifs <;> exact ⟨rfl, rfl⟩
  · simp [hcolon]

theorem parseHeaderLines_flags {lines : List Bytes} {req req' : RawRequest}
    (h : parseHeaderLines lines req = some req') (hcl : req'.scanFlags.hasCL = false)
    (hte : req'.scanFlags.hasTE = false) :
    req.scanFlags.hasCL = false ∧ req.scanFlags.hasTE = false ∧
      ∀ f ∈ lines.takeWhile (· ≠ []), byte ':' ∈ f →
        isField (ascii "Content-Length") f = false ∧
          isField (ascii "Transfer-Encoding") f = false := by
  induction lines generalizing req with
  | nil =>
    cases h
    exact ⟨hcl, hte, by simp⟩
  | cons line lines ih =>
    rw [parseHeaderLines] at h
    by_cases hline : line = []
    · rw [if_pos hline] at h
      cases h
      exact ⟨hcl, hte, by simp [hline]⟩
    · split_ifs at h
      obtain ⟨hcl', hte', hrest⟩ := ih h
      obtain ⟨hfcl, hfte⟩ := appendHeader_flags req line
      rw [hcl', eq_comm, or_eq_false_iff] at hfcl
      rw [hte', eq_comm, or_eq_false_iff] at hfte
      refine ⟨hfcl.1, hfte.1, fun f hf hcolon => ?_⟩
      rw [takeWhile_cons_of_pos (by simpa using hline)] at hf
      rcases mem_cons.1 hf with rfl | hf
      · simpa [hcolon] using And.intro hfcl.2 hfte.2
      · exact hrest f hf hcolon

theorem eq_line_append (h : ((buf.dropWhile (· != cr)).drop 1).head? = some lf) :
    ∃ t, buf = buf.takeWhile (· != cr) ++ crlf ++ t := by
  cases hdrop : buf.dropWhile (· != cr) with
  | nil => simp [hdrop] at h
  | cons c rest =>
    have hc : c = cr := by
      have := head_dropWhile_not (p := (· != cr)) (l := buf) (by simp [hdrop])
      simpa [hdrop] using this
    cases rest with
    | nil => simp [hdrop] at h
    | cons d t =>
      have hd : d = lf := by simpa [hdrop] using h
      have hcrlf : buf.dropWhile (· != cr) = crlf ++ t := by rw [hdrop, hc, hd]; rfl
      exact ⟨t, by rw [append_assoc, ← hcrlf, takeWhile_append_dropWhile]⟩

theorem head_crlfLines {req : RawRequest} (h : parseRequestLine buf = some req) :
    (crlfLines buf).head? = some (buf.takeWhile (· != cr)) ∧ buf.takeWhile (· != cr) ≠ [] := by
  unfold parseRequestLine at h
  simp only at h
  split_ifs at h with hlf hspace
  refine ⟨?_, fun hnil => by simp [hnil] at hspace⟩
  have hfree : ¬ crlf <:+: buf.takeWhile (· != cr) := by
    intro hsub
    have := mem_takeWhile_imp (hsub.subset (show cr ∈ crlf by simp [crlf]))
    simp at this
  obtain ⟨t, ht⟩ := eq_line_append (not_not.1 hlf)
  calc (crlfLines buf).head? = (crlfLines (buf.takeWhile (· != cr) ++ crlf ++ t)).head? := by
        rw [← ht]
    _ = some (buf.takeWhile (· != cr)) := by rw [crlfLines_append hfree]; rfl

/-! ## The reading of accepted buffers -/

theorem strictLines_of_readsByRfc {buf excess : Bytes} (h : ReadsByRfc buf excess) :
    StrictLines buf := by
  obtain ⟨requestLine, fields, hhead, -, hhost⟩ := h
  obtain ⟨hend, hfields⟩ := headerLines_rfcHead hhead
  have hfirst : buf.takeWhile (· != cr) = requestLine := by
    have hcr : ∀ c ∈ requestLine, (c != cr) = true := fun c hc =>
      bne_iff_ne.2 fun heq => (hhead.line_ok _ (.head _)).2.1 (heq ▸ hc)
    rw [hhead.split, joinLines, flatMap_cons, append_assoc, append_assoc, append_assoc,
      takeWhile_append_of_pos hcr]
    simp [crlf]
  refine ⟨hend, hfirst ▸ (hhead.line_ok _ (.head _)).2, fun l hl => ?_, ?_⟩
  · rw [hfields] at hl
    refine ⟨(hhead.line_ok l (.tail _ hl)).2, ?_⟩
    obtain ⟨f, -, rfl⟩ := mem_map.1 hl
    exact f.tokenThenColon_line
  · rw [hfields, countP_map, ← hhost]
    exact countP_congr fun f _ => by rw [Function.comp_apply, f.isField_line]

/-- An accepted buffer without framing fields is read by the RFC as a head with the same end exactly
if its lines are strict. -/
theorem accepted_head_reads_by_rfc_iff (buf excess : Bytes) (req : RawRequest)
    (h : parseBuffer buf (findHeaderEnd buf) = .request req excess)
    (hcl : req.scanFlags.hasCL = false) (hte : req.scanFlags.hasTE = false) :
    ReadsByRfc buf excess ↔ StrictLines buf := by
  refine ⟨strictLines_of_readsByRfc, fun ⟨hend, hline, hlines, hhost⟩ => ?_⟩
  obtain ⟨⟨req₀, hparsed, hheaders⟩, hexcess⟩ := parseBuffer_request h
  obtain ⟨hfirst, hne⟩ := head_crlfLines hparsed
  obtain ⟨rest, hhead⟩ := exists_rfcHead hfirst hne hend
    (forall_mem_cons.2 ⟨hline, fun l hl => (hlines l hl).1⟩)
  -- the head the RFC finds ends where the parser cut the buffer
  obtain ⟨n, hn, hdrop⟩ := findHeaderEnd_rfcHead hhead
  obtain rfl : excess = rest := by
    rw [hexcess, hn, ← hdrop]
    rfl
  obtain ⟨fields, hfields⟩ : fieldLines buf ∈ Set.range (map RfcField.line) := by
    rw [Set.range_list_map]
    exact fun l hl => exists_rfcField (hlines l hl).2
  obtain ⟨-, -, hflags⟩ := parseHeaderLines_flags hheaders hcl hte
  rw [← fieldLines, ← hfields] at hflags
  refine ⟨_, fields, hfields ▸ hhead, fun f hf => ?_, ?_⟩
  · have := hflags f.line (mem_map_of_mem hf) (by simp [RfcField.line])
    rwa [f.isField_line, f.isField_line] at this
  · rw [← hfields, countP_map] at hhost
    rw [← hhost]
    exact countP_congr fun f _ => by rw [Function.comp_apply, f.isField_line]

/-- A plain request is read in the same way. -/
theorem plain_head_reads_by_rfc :
    ReadsByRfc (ascii "GET / HTTP/1.1" ++ crlf ++ ascii "Host: h" ++ crlf ++ crlf ++ ascii "GET")
      (ascii "GET") :=
  (accepted_head_reads_by_rfc_iff _ _ _ rfl rfl rfl).2 (by decide)

def hiddenLength : Bytes :=
  ascii "POST / HTTP/1.1" ++ crlf ++ ascii "Host: h" ++ crlf ++
    ascii "Content-Length : 5" ++ crlf ++ crlf ++ ascii "ABCDE"

theorem hidden_length_accepted :
    ∃ req, parseBuffer hiddenLength (findHeaderEnd hiddenLength) = .request req (ascii "ABCDE") ∧
      req.scanFlags.hasCL = false ∧ req.scanFlags.hasTE = false ∧
      ¬ ReadsByRfc hiddenLength (ascii "ABCDE") :=
  ⟨_, rfl, rfl, rfl, fun h => absurd (strictLines_of_readsByRfc h) (by decide)⟩

end Bouine.Server
