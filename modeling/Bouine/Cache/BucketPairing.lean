import Bouine.Lib.LowerCase
import Bouine.Cache.FastPath

/-! # One question to the origin for each key

The variant key reduces Accept-Encoding and Accept-Language to what they come down to
(`varyHeaderValue` in `internal/cache/vary.go`), and `rewriteOutboundAE`
(`internal/cache/handler.go`) asks the origin for just that. The file says which two requests of one
key ask the same, and that a rewritten request keeps its key.
-/

namespace Bouine.Cache

open Lib Header
open List hiding splitOn

/-- What is used of weights: that of an item without one counts, and is more than what the search
starts from. -/
structure LawfulWeights {W : Type*} (lib : Stdlib W) : Prop where
  counts : excluded lib lib.one = false
  better : lib.lt lib.minusOne lib.one = true

/-! ## Values of one token -/

structure Token (t : Bytes) : Prop where
  ne_nil : t ≠ []
  chars : ∀ c ∈ t, isTagChar c = true ∨ c = byte '-'

theorem token_char {c : UInt8} (h : isTagChar c ∨ c = byte '-') :
    (c < 0x80 ∧ [c] ∉ spaces) ∧ c ≠ byte ',' ∧ c ≠ byte ';' :=
  forall_byte (P := fun c => isTagChar c = true ∨ c = byte '-' →
    (c < 0x80 ∧ [c] ∉ spaces) ∧ c ≠ byte ',' ∧ c ≠ byte ';') (by decide +kernel) c h

namespace Token

variable {t : Bytes} (h : Token t)

include h

theorem trimSpace_eq : trimSpace t = t :=
  trimSpace_of_no_spaces fun c hc => (token_char (h.chars c hc)).1

theorem pieces_eq : pieces (byte ',') t = [t] :=
  pieces_of_notMem (fun hc => (token_char (h.chars _ hc)).2.1 rfl) h.ne_nil

theorem cutAt_eq : cutAt (byte ';') t = (t, []) := by
  have hcut := cutAt_append_of_notMem (fun hc => (token_char (h.chars _ hc)).2.2 rfl) []
  have hnil : cutAt (byte ';') [] = ([], []) := rfl
  rwa [hnil, append_nil] at hcut

theorem toLowerText_eq (lowerRune : Nat → Nat) : toLowerText lowerRune t = toLower t :=
  toLowerText_ascii fun c hc => (token_char (h.chars c hc)).1.1

end Token

theorem token_of_isLanguageTag {t : Bytes} (h : isLanguageTag t) : Token t := by
  unfold isLanguageTag at h
  simp only [Bool.and_eq_true, all_eq_true] at h
  refine ⟨?_, fun c hc => ?_⟩
  · rintro rfl
    exact absurd (h.1 [] (by simp [splitOn])).1.1 (by simp)
  · rcases mem_splitOn_of_mem (byte '-') hc with rfl | ⟨g, hg, hcg⟩
    · exact .inr rfl
    · exact .inl ((h.1 g hg).2 c hcg)

theorem isLanguageTag_toLower (t : Bytes) : isLanguageTag (toLower t) = isLanguageTag t := by
  have hdash : ∀ x, toLowerByte x = byte '-' ↔ x = byte '-' := toLowerByte_eq_iff (by decide) (by decide)
  have hchar (c : UInt8) : isTagChar (toLowerByte c) = isTagChar c :=
    forall_byte (P := fun c => isTagChar (toLowerByte c) = isTagChar c) (by decide +kernel) c
  unfold isLanguageTag toLower
  rw [splitOn_map hdash]
  simp [Function.comp_def, hchar]

theorem isLanguageTag_congr {t t' : Bytes} (h : equalFold t t') :
    isLanguageTag t = isLanguageTag t' := by
  rw [← isLanguageTag_toLower t, beq_iff_eq.1 h, isLanguageTag_toLower]

section

variable {W : Type*} {lib : Stdlib W}

theorem isLanguageTag_of_langBucket {v t : Bytes} (h : langBucket lib v = some t) :
    isLanguageTag t = true := by
  -- what the search holds is nothing or a tag
  have hstep (best : Bytes × W) (item : Bytes) (hbest : best.1 = [] ∨ isLanguageTag best.1) :
      (langStep lib best item).1 = [] ∨ isLanguageTag (langStep lib best item).1 = true := by
    unfold langStep
    dsimp only
    cases htag : isLanguageTag (trimSpace (cutAt (byte ';') (trimSpace item)).1) with
    | false => simpa using hbest
    | true =>
      split_ifs <;> first | exact hbest | exact .inr htag
  unfold langBucket at h
  dsimp only at h
  split_ifs at h with hnil
  cases h
  exact (foldlRecOn _ _ (.inl rfl) fun best hbest item _ => hstep best item hbest).resolve_left hnil

theorem encodingBucket_cases (v : Bytes) :
    encodingBucket lib v ∈ [ascii "br", ascii "zstd", ascii "gzip", ascii "identity"] := by
  unfold encodingBucket
  dsimp only
  split_ifs <;> simp

variable (weights : LawfulWeights lib)

include weights

theorem langBucket_tag {t : Bytes} (h : isLanguageTag t) : langBucket lib t = some t := by
  have htoken := token_of_isLanguageTag h
  have hstep : langStep lib ([], lib.minusOne) t = (t, lib.one) := by
    unfold langStep
    simp [htoken.trimSpace_eq, htoken.cutAt_eq, h, weightOf, weights.counts,
      weights.better]
  unfold langBucket
  rw [htoken.trimSpace_eq, htoken.pieces_eq, foldl_cons, foldl_nil, hstep]
  exact if_neg htoken.ne_nil

theorem encodingBucket_coding {t : Bytes} (h : t ∈ [ascii "br", ascii "zstd", ascii "gzip"]) :
    encodingBucket lib t = t := by
  have hcodings : ∀ t ∈ [ascii "br", ascii "zstd", ascii "gzip"],
      (t ≠ [] ∧ ∀ c ∈ t, isTagChar c ∨ c = byte '-') ∧ toLower t = t := by decide
  obtain ⟨⟨hne, hchars⟩, hlower⟩ := hcodings t h
  have htoken : Token t := ⟨hne, hchars⟩
  have hstep (rank : Int) (hrank : aeRank t = some rank) :
      encodingStep lib (-1, lib.minusOne) t = (rank, lib.one) := by
    unfold encodingStep
    simp [htoken.trimSpace_eq, htoken.cutAt_eq, htoken.toLowerText_eq, hlower, hrank, weightOf, weights.counts, weights.better]
  unfold encodingBucket
  rw [htoken.trimSpace_eq, htoken.pieces_eq, foldl_cons, foldl_nil]
  simp only [mem_cons, not_mem_nil, or_false] at h
  rcases h with rfl | rfl | rfl
  · rw [hstep 3 rfl]
    rfl
  · rw [hstep 2 rfl]
    rfl
  · rw [hstep 1 rfl]
    rfl

end

/-! ## Two requests -/

def LinesAlike (ls ls' : List Bytes) : Prop := List.Forall₂ (fun v v' => equalFold v v' = true) ls ls'

instance : DecidableRel LinesAlike := fun ls ls' =>
  inferInstanceAs (Decidable (List.Forall₂ (fun v v' => equalFold v v' = true) ls ls'))

theorem linesAlike_cons {v v' : Bytes} {ls ls' : List Bytes} :
    LinesAlike (v :: ls) (v' :: ls') ↔ equalFold v v' ∧ LinesAlike ls ls' :=
  forall₂_cons

theorem LinesAlike.symm {ls ls' : List Bytes} (h : LinesAlike ls ls') : LinesAlike ls' ls :=
  (List.Forall₂.flip h).imp fun _ _ heq => beq_iff_eq.2 (beq_iff_eq.1 heq).symm

theorem acceptEncoding_name : canonicalHeaderKey (ascii "accept-encoding") = Field.acceptEncoding ∧
    isCanonical Field.acceptEncoding ∧ toLower (ascii "accept-encoding") = ascii "accept-encoding" := by
  decide

theorem acceptLanguage_name : canonicalHeaderKey (ascii "accept-language") = Field.acceptLanguage ∧
    isCanonical Field.acceptLanguage ∧ toLower (ascii "accept-language") = ascii "accept-language" := by
  decide

theorem acceptLanguage_ne : Field.acceptLanguage ≠ Field.acceptEncoding ∧
    ascii "accept-language" ≠ ascii "accept-encoding" := by
  decide

theorem accept_ne_cookies : ∀ name ∈ [setCookie, Field.cookie],
    name ≠ Field.acceptEncoding ∧ name ≠ Field.acceptLanguage := by
  decide

theorem accept_ne_cookieFields : ∀ f ∈ [ascii "accept-encoding", ascii "accept-language"],
    f ≠ cookieValuesField ∧ f ≠ cookiePresenceField := by
  decide

section

variable {W : Type*} (h : Outbound W) (a b : Raw)

def SameValues : Prop :=
  ∀ f ∈ selectingFields h.lib h.policy (ascii "Accept-Encoding, Accept-Language"),
    fieldValue h.lib h.policy (fastVarySrc a).view f = fieldValue h.lib h.policy (fastVarySrc b).view f

instance : Decidable (SameValues h a b) := by
  unfold SameValues
  infer_instance

/-- The origin gets the same fields for both, apart from an encoding keyed as it is. -/
structure OutboundAlike : Prop where
  encoding : verbatimEncoding h.policy = true ∨
    LinesAlike ((rewriteOutboundAE h a).peekAll Field.acceptEncoding)
      ((rewriteOutboundAE h b).peekAll Field.acceptEncoding)
  language : LinesAlike ((rewriteOutboundAE h a).peekAll Field.acceptLanguage)
    ((rewriteOutboundAE h b).peekAll Field.acceptLanguage)

instance : Decidable (OutboundAlike h a b) :=
  decidable_of_iff _ ⟨fun h : _ ∧ _ => ⟨h.1, h.2⟩, fun h => ⟨h.encoding, h.language⟩⟩

/-- A field that the key leaves out has to agree, and so have the lines after the first, which are
sent as they are. -/
def EncodingPairable : Prop :=
  verbatimEncoding h.policy = true ∨
    (shouldExcludeHeader h.policy (ascii "accept-encoding") = true →
        encodingBucket h.lib (a.peek Field.acceptEncoding) =
          encodingBucket h.lib (b.peek Field.acceptEncoding)) ∧
      (encodingBucket h.lib (a.peek Field.acceptEncoding) ≠ ascii "identity" →
        LinesAlike ((a.peekAll Field.acceptEncoding).drop 1) ((b.peekAll Field.acceptEncoding).drop 1))

/-- The same for languages. Those without a bucket are sent as they are, and all are under a policy
that keys encodings as they are. -/
def LanguagePairable : Prop :=
  match verbatimEncoding h.policy, langBucket h.lib (a.peek Field.acceptLanguage),
      langBucket h.lib (b.peek Field.acceptLanguage) with
  | false, some t, some t' =>
    (shouldExcludeHeader h.policy (ascii "accept-language") = true → equalFold t t' = true) ∧
      LinesAlike ((a.peekAll Field.acceptLanguage).drop 1) ((b.peekAll Field.acceptLanguage).drop 1)
  | false, none, none | true, _, _ =>
    LinesAlike (a.peekAll Field.acceptLanguage) (b.peekAll Field.acceptLanguage)
  | false, some _, none | false, none, some _ => False

instance : Decidable (EncodingPairable h a b) := by
  unfold EncodingPairable
  infer_instance

instance : Decidable (LanguagePairable h a b) := by
  unfold LanguagePairable
  split <;> infer_instance

theorem selectingFields_both : selectingFields h.lib h.policy (ascii "Accept-Encoding, Accept-Language") =
    [ascii "accept-encoding", ascii "accept-language"].filter (!shouldExcludeHeader h.policy ·) := by
  have hascii : ∀ c ∈ ascii "Accept-Encoding, Accept-Language", c < 0x80 := by decide
  have hsorted : sortStrings ((splitOn (byte ',') (ascii "Accept-Encoding, Accept-Language")).map
      fun f => toLower (trimSpace f)) = [ascii "accept-encoding", ascii "accept-language"] := by
    decide
  rw [selectingFields, varyFields, map_congr_left fun f hf => toLowerText_ascii fun c hc =>
    hascii c (mem_of_mem_splitOn hf (mem_of_mem_trimSpace hc)), hsorted]

theorem fieldValue_accept {lib : Stdlib W} {policy : Option KeyPolicy} {req : HeaderMap} {f : Bytes}
    (hf : f ∈ [ascii "accept-encoding", ascii "accept-language"]) :
    fieldValue lib policy req f = varyHeaderValue lib f (req.get f) policy := by
  obtain ⟨hvalues, hpresence⟩ := accept_ne_cookieFields f hf
  cases policy <;> simp [fieldValue, hvalues, hpresence]

variable {h a b}

theorem varyHeaderValue_eq_of_sameValues (hsame : SameValues h a b) {f name : Bytes}
    (hf : f ∈ [ascii "accept-encoding", ascii "accept-language"]) (hname : canonicalHeaderKey f = name)
    (hkept : shouldExcludeHeader h.policy f = false) :
    varyHeaderValue h.lib f (a.peek name) h.policy = varyHeaderValue h.lib f (b.peek name) h.policy := by
  have hvalue := hsame f (by
    rw [selectingFields_both]
    exact mem_filter.2 ⟨hf, by simp [hkept]⟩)
  rw [fieldValue_accept hf, fieldValue_accept hf] at hvalue
  subst hname
  exact hvalue

theorem linesAlike_coding_iff {x y : Bytes} {ls ls' : List Bytes}
    (hx : x ∈ [ascii "br", ascii "zstd", ascii "gzip", ascii "identity"])
    (hy : y ∈ [ascii "br", ascii "zstd", ascii "gzip", ascii "identity"]) :
    LinesAlike (if x = ascii "identity" then [] else x :: ls)
        (if y = ascii "identity" then [] else y :: ls') ↔
      x = y ∧ (x ≠ ascii "identity" → LinesAlike ls ls') := by
  have hfold : ∀ x ∈ [ascii "br", ascii "zstd", ascii "gzip", ascii "identity"],
      ∀ y ∈ [ascii "br", ascii "zstd", ascii "gzip", ascii "identity"],
      equalFold x y ↔ x = y := by decide
  split_ifs with hxi hyi hyi
  · simp [LinesAlike, hxi, hyi]
  · simp [LinesAlike, hxi, Ne.symm hyi]
  · simp [LinesAlike, hxi, hyi]
  · rw [linesAlike_cons, hfold x hx y hy]
    simp [hxi]

theorem encoding_alike_iff (hsame : SameValues h a b) :
    (verbatimEncoding h.policy ∨
        LinesAlike ((rewriteOutboundAE h a).peekAll Field.acceptEncoding)
          ((rewriteOutboundAE h b).peekAll Field.acceptEncoding)) ↔ EncodingPairable h a b := by
  unfold EncodingPairable
  cases hverbatim : verbatimEncoding h.policy with
  | true => simp
  | false =>
    simp only [Bool.false_eq_true, false_or, peekAll_rewriteOutboundAE, bucketedLines, hverbatim,
      if_false, if_true]
    rw [linesAlike_coding_iff (encodingBucket_cases _) (encodingBucket_cases _)]
    refine and_congr_left fun _ => ⟨fun heq _ => heq, fun heq => ?_⟩
    cases hex : shouldExcludeHeader h.policy (ascii "accept-encoding") with
    | true => exact heq hex
    | false =>
      have hvalue := varyHeaderValue_eq_of_sameValues hsame (by simp) acceptEncoding_name.1 hex
      rwa [varyHeaderValue, varyHeaderValue, if_pos ⟨rfl, hverbatim⟩, if_pos ⟨rfl, hverbatim⟩] at hvalue

variable (weights : LawfulWeights h.lib)

include weights

theorem not_linesAlike_tag {t : Bytes} {ls ls' : List Bytes} (ht : isLanguageTag t)
    (hnone : langBucket h.lib (ls'.head?.getD []) = none) : ¬ LinesAlike (t :: ls) ls' := by
  intro halike
  cases halike with
  | cons hfold _ =>
    rename_i v' ls''
    have htag := langBucket_tag weights ((isLanguageTag_congr hfold).symm.trans ht)
    rw [head?_cons, Option.getD_some, htag] at hnone
    exact absurd hnone (by simp)

theorem language_alike_iff (hsame : SameValues h a b) :
    LinesAlike ((rewriteOutboundAE h a).peekAll Field.acceptLanguage)
        ((rewriteOutboundAE h b).peekAll Field.acceptLanguage) ↔ LanguagePairable h a b := by
  have hne := (accept_ne_cookies setCookie (by simp)).2.symm
  have hdiff := acceptLanguage_ne.1
  have hnone {hdr : Raw} (hn : langBucket h.lib (hdr.peek Field.acceptLanguage) = none) :
      langBucket h.lib (((hdr.peekAll Field.acceptLanguage).head?).getD []) = none := by
    rwa [← peek_eq hne]
  unfold LanguagePairable
  simp only [peekAll_rewriteOutboundAE, bucketedLines, hdiff, if_true, ← peek_eq hne]
  cases hverbatim : verbatimEncoding h.policy with
  | true => simp
  | false =>
    simp only [Bool.false_eq_true, if_false]
    cases ht : langBucket h.lib (a.peek Field.acceptLanguage) with
    | none =>
      cases ht' : langBucket h.lib (b.peek Field.acceptLanguage) with
      | none => exact Iff.rfl
      | some t' =>
        refine iff_of_false (fun halike => ?_) not_false
        exact not_linesAlike_tag weights (isLanguageTag_of_langBucket ht') (hnone ht) halike.symm
    | some t =>
      cases ht' : langBucket h.lib (b.peek Field.acceptLanguage) with
      | none =>
        exact iff_of_false
          (not_linesAlike_tag weights (isLanguageTag_of_langBucket ht) (hnone ht')) not_false
      | some t' =>
        rw [linesAlike_cons]
        refine and_congr_left fun _ => ⟨fun heq _ => heq, fun heq => ?_⟩
        cases hex : shouldExcludeHeader h.policy (ascii "accept-language") with
        | true => exact heq hex
        | false =>
          have hvalue := varyHeaderValue_eq_of_sameValues hsame (by simp) acceptLanguage_name.1 hex
          have hne : ¬ (ascii "accept-language" = ascii "accept-encoding" ∧
              verbatimEncoding h.policy = false) := fun heq => acceptLanguage_ne.2 heq.1
          rw [varyHeaderValue, varyHeaderValue, if_neg hne, if_neg hne, if_pos rfl, if_pos rfl, ht, ht'] at hvalue
          dsimp only at hvalue
          rw [(token_of_isLanguageTag (isLanguageTag_of_langBucket ht)).toLowerText_eq,
            (token_of_isLanguageTag (isLanguageTag_of_langBucket ht')).toLowerText_eq] at hvalue
          exact beq_iff_eq.2 hvalue

end

/-! ## The key of the rewritten request -/

section

variable {W : Type*}

variable {h : Outbound W} (weights : LawfulWeights h.lib) (hdr : Raw)

def firstLine (hdr : Raw) (f : Bytes) : Bytes := ((hdr.peekAll (canonicalHeaderKey f)).head?).getD []

theorem peekAll_rewriteOutboundAE_of_ne {name : Bytes}
    (hname : name ≠ Field.acceptEncoding ∧ name ≠ Field.acceptLanguage) :
    (rewriteOutboundAE h hdr).peekAll name = hdr.peekAll name := by
  obtain ⟨henc, hlang⟩ := hname
  rw [peekAll_rewriteOutboundAE, bucketedLines, if_neg henc, if_neg hlang, ite_self]

theorem firstLine_encoding (hverbatim : verbatimEncoding h.policy = false) :
    firstLine (rewriteOutboundAE h hdr) (ascii "accept-encoding") =
      if encodingBucket h.lib (firstLine hdr (ascii "accept-encoding")) = ascii "identity" then []
      else encodingBucket h.lib (firstLine hdr (ascii "accept-encoding")) := by
  unfold firstLine
  simp only [acceptEncoding_name.1, peekAll_rewriteOutboundAE, bucketedLines, hverbatim, Bool.false_eq_true, if_false]
  split_ifs <;> rfl

theorem firstLine_language (hverbatim : verbatimEncoding h.policy = false) :
    firstLine (rewriteOutboundAE h hdr) (ascii "accept-language") =
      (langBucket h.lib (firstLine hdr (ascii "accept-language"))).getD
        (firstLine hdr (ascii "accept-language")) := by
  unfold firstLine
  simp only [acceptLanguage_name.1, peekAll_rewriteOutboundAE, bucketedLines, hverbatim]
  cases langBucket h.lib ((hdr.peekAll Field.acceptLanguage).head?.getD []) <;> rfl

theorem eq_of_canonicalHeaderKey {f g : Bytes} (hf : toLower f = f) (hg : toLower g = g)
    (heq : canonicalHeaderKey f = canonicalHeaderKey g) : f = g := by
  have hfold := beq_iff_eq.1 (canonicalHeaderKey_eq_iff.1 heq)
  rwa [hf, hg] at hfold

theorem canonical_rewriteOutboundAE (hcanonical : hdr.Canonical) :
    (rewriteOutboundAE h hdr).Canonical := by
  have henc : (bucketEncoding h hdr).Canonical := by
    unfold bucketEncoding
    dsimp only
    split_ifs
    · exact hcanonical.del _
    · exact hcanonical.set acceptEncoding_name.2.1 _
  unfold rewriteOutboundAE bucketLanguage
  split_ifs
  · exact hcanonical
  · cases langBucket h.lib ((bucketEncoding h hdr).peek Field.acceptLanguage) with
    | none => exact henc
    | some lang => exact henc.set acceptLanguage_name.2.1 _

theorem get_headerFromCtx (hcanonical : hdr.Canonical) (f : Bytes) :
    (mapView (headerFromCtx hdr)).get f = firstLine hdr f := by
  have hentries : ∀ e ∈ (headerFromCtx hdr).entries, isCanonical e.name = true :=
    fun e he => hcanonical e ((mem_insertionSort _).1 he)
  show (headerFromCtx hdr).get f = _
  rw [Map.get_of_canonical hentries, headerFromCtx, Map.valuesOf_sortEntries]
  rfl

include weights

variable {f : Bytes}

theorem varyHeaderValue_rewritten (hf : toLower f = f) :
    varyHeaderValue h.lib f (firstLine (rewriteOutboundAE h hdr) f) h.policy =
      varyHeaderValue h.lib f (firstLine hdr f) h.policy := by
  obtain ⟨henc, -, henclower⟩ := acceptEncoding_name
  obtain ⟨hlang, -, hlanglower⟩ := acceptLanguage_name
  cases hverbatim : verbatimEncoding h.policy with
  | true => rw [rewriteOutboundAE, hverbatim, if_pos rfl]
  | false =>
    by_cases hfenc : canonicalHeaderKey f = Field.acceptEncoding
    · obtain rfl := eq_of_canonicalHeaderKey hf henclower (hfenc.trans henc.symm)
      rw [varyHeaderValue, varyHeaderValue, if_pos ⟨rfl, hverbatim⟩, if_pos ⟨rfl, hverbatim⟩,
        firstLine_encoding hdr hverbatim]
      split_ifs with hidentity
      · exact hidentity.symm
      · refine encodingBucket_coding weights ?_
        have hcases : encodingBucket h.lib (firstLine hdr (ascii "accept-encoding")) ∈ _ :=
          encodingBucket_cases _
        simp only [mem_cons, not_mem_nil, or_false, hidentity] at hcases ⊢
        exact hcases
    · by_cases hflang : canonicalHeaderKey f = Field.acceptLanguage
      · obtain rfl := eq_of_canonicalHeaderKey hf hlanglower (hflang.trans hlang.symm)
        have hnot : ¬ (ascii "accept-language" = ascii "accept-encoding" ∧
            verbatimEncoding h.policy = false) := fun heq => acceptLanguage_ne.2 heq.1
        have hfirst := firstLine_language hdr hverbatim
        cases ht : langBucket h.lib (firstLine hdr (ascii "accept-language")) with
        | none =>
          rw [ht, Option.getD_none] at hfirst
          rw [hfirst]
        | some t =>
          rw [ht, Option.getD_some] at hfirst
          have htag := langBucket_tag weights (isLanguageTag_of_langBucket ht)
          rw [varyHeaderValue, varyHeaderValue, if_neg hnot, if_neg hnot, if_pos rfl, if_pos rfl, hfirst,
            ht, htag]
      · rw [firstLine, firstLine, peekAll_rewriteOutboundAE_of_ne hdr ⟨hfenc, hflang⟩]

omit weights in
theorem fieldValue_eq_of_values {lib : Stdlib W} {policy : Option KeyPolicy} {req req' : HeaderMap} (hcookies : req.cookieAll = req'.cookieAll)
    (hvalue : varyHeaderValue lib f (req.get f) policy = varyHeaderValue lib f (req'.get f) policy) :
    fieldValue lib policy req f = fieldValue lib policy req' f := by
  unfold fieldValue
  rw [hcookies, hvalue]

omit weights in
theorem toLower_of_mem_varyFields {lib : Stdlib W} {vary f : Bytes} (hascii : ∀ c ∈ vary, c < 0x80)
    (hf : f ∈ varyFields lib vary) : toLower f = f := by
  have hbyte (c : UInt8) : toLowerByte (toLowerByte c) = toLowerByte c :=
    forall_byte (P := fun c => toLowerByte (toLowerByte c) = toLowerByte c) (by decide +kernel) c
  obtain ⟨g, hg, rfl⟩ := mem_map.1 ((mem_insertionSort _).1 hf)
  rw [toLowerText_ascii fun c hc => hascii c (mem_of_mem_splitOn hg (mem_of_mem_trimSpace hc))]
  simp [toLower, hbyte]

theorem varyHeaderValue_peek_rewritten (hf : toLower f = f) :
    varyHeaderValue h.lib f ((rewriteOutboundAE h hdr).peek (canonicalHeaderKey f)) h.policy =
      varyHeaderValue h.lib f (hdr.peek (canonicalHeaderKey f)) h.policy := by
  by_cases hset : canonicalHeaderKey f = setCookie
  · have hlines := peekAll_rewriteOutboundAE_of_ne (h := h) hdr (accept_ne_cookies setCookie (by simp))
    rw [hset, Raw.peek, Raw.peek, hlines]
  · rw [peek_eq hset, peek_eq hset]
    exact varyHeaderValue_rewritten weights hdr hf

theorem variantKeyCore_rewriteOutboundAE (hcanonical : hdr.Canonical) {vary : Bytes}
    (hascii : ∀ c ∈ vary, c < 0x80) (sum64 : Bytes → UInt64) (primary : Key) :
    variantKeyCore h.lib sum64 primary h.policy vary (fastVarySrc (rewriteOutboundAE h hdr)) =
      variantKeyCore h.lib sum64 primary h.policy vary (fastVarySrc hdr) := by
  have hlines := peekAll_rewriteOutboundAE_of_ne (h := h) hdr (accept_ne_cookies Field.cookie (by simp))
  have hcookies : peekCookies (rewriteOutboundAE h hdr) = peekCookies hdr := by
    have hne : Field.cookie ≠ setCookie := by decide
    unfold peekCookies
    simp [peek_eq hne, hlines]
  have hcookieAll : (headerFromCtx (rewriteOutboundAE h hdr)).cookieAll = (headerFromCtx hdr).cookieAll := by
    unfold Map.cookieAll headerFromCtx
    rw [Map.valuesOf_sortEntries, Map.valuesOf_sortEntries]
    exact congrArg (fun vs => intercalate (ascii "; ") (vs.filter (· ≠ []))) hlines
  have htext : variantText h.lib h.policy vary (fastVarySrc (rewriteOutboundAE h hdr)) =
      variantText h.lib h.policy vary (fastVarySrc hdr) := by
    refine variantText_congr h.lib hascii (fun f hf => ?_) fun f hf => ?_
    · exact fieldValue_eq_of_values hcookies
        (varyHeaderValue_peek_rewritten weights hdr (toLower_of_mem_varyFields hascii hf))
    · refine fieldValue_eq_of_values hcookieAll ?_
      show varyHeaderValue h.lib f ((mapView (headerFromCtx (rewriteOutboundAE h hdr))).get f) _ =
        varyHeaderValue h.lib f ((mapView (headerFromCtx hdr)).get f) _
      rw [get_headerFromCtx _ (canonical_rewriteOutboundAE hdr hcanonical),
        get_headerFromCtx _ hcanonical]
      exact varyHeaderValue_rewritten weights hdr (toLower_of_mem_varyFields hascii hf)
  rw [variantKeyCore, variantKeyCore, htext]

/-- Two requests of one key ask the same exactly where the fields that are sent as they are agree,
and every request keeps its key. -/
theorem bucket_pairing_iff {a b : Raw} (ha : a.Canonical) (hsame : SameValues h a b) :
    (OutboundAlike h a b ↔ EncodingPairable h a b ∧ LanguagePairable h a b) ∧
      ∀ (sum64 : Bytes → UInt64) (primary : Key) (vary : Bytes), (∀ c ∈ vary, c < 0x80) →
        variantKeyCore h.lib sum64 primary h.policy vary (fastVarySrc (rewriteOutboundAE h a)) =
          variantKeyCore h.lib sum64 primary h.policy vary (fastVarySrc a) := by
  have hpair : OutboundAlike h a b ↔ EncodingPairable h a b ∧ LanguagePairable h a b := by
    rw [← encoding_alike_iff hsame, ← language_alike_iff weights hsame]
    exact ⟨fun hout => ⟨hout.encoding, hout.language⟩, fun hout => ⟨hout.1, hout.2⟩⟩
  exact ⟨hpair, fun sum64 primary vary hascii =>
    variantKeyCore_rewriteOutboundAE weights a ha hascii sum64 primary⟩

end

def asciiRoute (policy : Option KeyPolicy) : Outbound Int where
  lib := asciiLib
  policy
  forwarding := ⟨id, peekAll_id⟩
  formatTime _ := []

def accepting (encodings languages : List String) : Raw :=
  ⟨encodings.map (fun v => ⟨Field.acceptEncoding, ascii v⟩) ++
    languages.map fun v => ⟨Field.acceptLanguage, ascii v⟩⟩

def chained : Raw := accepting ["gzip, BR"] ["fr, *"]

def single : Raw := accepting ["br"] ["FR"]

/-- Two spellings of one wish. -/
theorem two_spellings_ask_alike :
    SameValues (asciiRoute none) chained single ∧ OutboundAlike (asciiRoute none) chained single ∧
      variantKeyCore asciiLib (fun t => t.length.toUInt64) ⟨1, 2⟩ none
          (ascii "Accept-Encoding, Accept-Language")
          (fastVarySrc (rewriteOutboundAE (asciiRoute none) chained)) =
        variantKeyCore asciiLib (fun t => t.length.toUInt64) ⟨1, 2⟩ none
          (ascii "Accept-Encoding, Accept-Language") (fastVarySrc chained) := by
  have hsame : SameValues (asciiRoute none) chained single := by decide
  have hcanonical : chained.Canonical := by
    unfold Raw.Canonical
    decide
  have hpairable : EncodingPairable (asciiRoute none) chained single ∧
      LanguagePairable (asciiRoute none) chained single := by decide
  have hpairing := bucket_pairing_iff ⟨rfl, rfl⟩ hcanonical hsame
  exact ⟨hsame, hpairing.1.2 hpairable, hpairing.2 _ _ _ (by decide)⟩

def verbatimPolicy : KeyPolicy where
  stripParams := []
  keepParams := none
  excludeHeaders := []
  stripPrefixes := []
  cookiePresence := []
  cookieValues := []
  stripEmpty := false
  dedup := false
  excludeHost := false
  verbatimAE := true

/-- Where encodings are keyed as they are, languages are keyed by bucket and sent as they are. Of
several lines the first is keyed and rewritten, and the others are sent with it. -/
theorem one_key_two_questions :
    let fr := accepting ["gzip"] ["fr"]
    let chain := accepting ["gzip"] ["fr, *"]
    let twice := accepting ["gzip", "br"] ["fr"]
    let verbatim := asciiRoute (some verbatimPolicy)
    let bucketing := asciiRoute none
    SameValues verbatim fr chain ∧
      (rewriteOutboundAE verbatim fr).peekAll Field.acceptLanguage = [ascii "fr"] ∧
      (rewriteOutboundAE verbatim chain).peekAll Field.acceptLanguage = [ascii "fr, *"] ∧
      ¬ OutboundAlike verbatim fr chain ∧
      SameValues bucketing fr twice ∧
      (rewriteOutboundAE bucketing twice).peekAll Field.acceptEncoding = [ascii "gzip", ascii "br"] ∧
      ¬ OutboundAlike bucketing fr twice := by
  decide

end Bouine.Cache
