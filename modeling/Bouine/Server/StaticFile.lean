import Bouine.Lib.Transition
import Bouine.Lib.WhiteSpace

/-! # Entity tags of static files

`internal/staticfile/handler.go`, for one path. The tag is the hash of the file, kept under the time
of its last change: it is the file's own as long as no two contents share a time. Answers to a Range
carry the same fields.
-/

namespace Bouine.StaticFile

open Lib Lib.Transition
open List hiding splitOn

structure File where
  content : Bytes
  mtime : Int

structure Request where
  head : Bool
  /-- The file can be read to its end when the hash is taken. -/
  readable : Bool
  ifNoneMatch : Bytes
  /-- If-Modified-Since, if it is a date. -/
  ifModifiedSince : Option Int

/-- No tag is the empty one, and HEAD gets no body. -/
inductive Answer where
  | tooLarge
  | notModified (etag : Bytes)
  | served (etag : Bytes) (body : Option Bytes)
deriving DecidableEq

/-- The file and the entry of `etagCache`. -/
structure State where
  file : File
  cached : Option (Int × Bytes)

inductive Event where
  | change (file : File)
  | request (r : Request)

section

variable (sum64 : Bytes → UInt64) (maxBytes : Nat)

def hexDigit (d : Nat) : UInt8 := if d < 10 then byte '0' + d.toUInt8 else byte 'a' + (d - 10).toUInt8

/-- The format `"%x"`. -/
def quoteHex (n : UInt64) : Bytes :=
  let digits := ((range 15).map fun i => hexDigit (n.toNat / 16 ^ (15 - i) % 16)).dropWhile (· == byte '0')
  byte '"' :: (digits ++ [hexDigit (n.toNat % 16), byte '"'])

def contentTag (content : Bytes) : Bytes := quoteHex (sum64 content)

def computeETag (s : State) (readable : Bool) : Bytes × State :=
  match s.cached.filter (·.1 = s.file.mtime) with
  | some (_, etag) => (etag, s)
  | none =>
    if readable then
      let etag := contentTag sum64 s.file.content
      (etag, { s with cached := some (s.file.mtime, etag) })
    else ([], s)

def isETagMatch (ifNoneMatch etag : Bytes) : Bool :=
  ifNoneMatch == ascii "*" || (splitOn (byte ',') ifNoneMatch).any fun p =>
    let p := trimSpace p
    (if ascii "W/" <+: p then p.drop 2 else p) == etag

def handleFastConditional (file : File) (r : Request) (etag : Bytes) : Bool :=
  if r.ifNoneMatch ≠ [] then isETagMatch r.ifNoneMatch etag
  else r.ifModifiedSince.any (file.mtime / 1000000000 * 1000000000 ≤ ·)

def serveRequest (s : State) (r : Request) : Answer × State :=
  if maxBytes < s.file.content.length then (.tooLarge, s)
  else
    let (etag, s') := computeETag sum64 s r.readable
    if handleFastConditional s.file r etag then (.notModified etag, s')
    else (.served etag (if r.head then none else some s.file.content), s')

def step (s : State) : Event → State
  | .change file => { s with file }
  | .request r => (serveRequest sum64 maxBytes s r).2

/-- A tag is that of the body it goes with, and a 304 to the tag of some content says that the file
has that tag. -/
def Strong (s : State) (r : Request) : Prop :=
  match (serveRequest sum64 maxBytes s r).1 with
  | .tooLarge => True
  | .served etag body => ∀ content ∈ body, etag ≠ [] → etag = contentTag sum64 content
  | .notModified _ => ∀ content, r.ifNoneMatch = contentTag sum64 content →
      contentTag sum64 s.file.content = contentTag sum64 content

/-- The file is one of the versions, and the tag kept is that of a version, under its time. -/
structure Known (V : File → Prop) (s : State) : Prop where
  file : V s.file
  cached : ∀ e ∈ s.cached, ∃ f, V f ∧ e = (f.mtime, contentTag sum64 f.content)

end

variable {sum64 : Bytes → UInt64} {maxBytes : Nat}

theorem mem_quoteHex {n : UInt64} {c : UInt8} (h : c ∈ quoteHex n) :
    (c < 0x80 ∧ [c] ∉ spaces) ∧ c ≠ byte ',' := by
  have hdigit : ∀ d : Fin 16, (hexDigit d < 0x80 ∧ [hexDigit d] ∉ spaces) ∧ hexDigit d ≠ byte ',' := by
    decide
  have hmod (m : Nat) := hdigit ⟨m % 16, Nat.mod_lt _ (by decide)⟩
  simp only [quoteHex, mem_cons, mem_append, not_mem_nil, or_false] at h
  rcases h with rfl | h | rfl | rfl
  · decide
  · obtain ⟨i, -, rfl⟩ := mem_map.1 ((dropWhile_suffix _).subset h)
    exact hmod _
  · exact hmod _
  · decide

/-- A tag of the handler, sent back as it is, matches itself alone. -/
theorem isETagMatch_contentTag {content etag : Bytes}
    (h : isETagMatch (contentTag sum64 content) etag) : etag = contentTag sum64 content := by
  have htrim : trimSpace (contentTag sum64 content) = contentTag sum64 content :=
    trimSpace_of_no_spaces fun c hc => (mem_quoteHex hc).1
  have hsplit : splitOn (byte ',') (contentTag sum64 content) = [contentTag sum64 content] :=
    splitOn_of_notMem fun hc => (mem_quoteHex hc).2 rfl
  have hstar : contentTag sum64 content ≠ ascii "*" := nofun
  have hweak : ¬ ascii "W/" <+: contentTag sum64 content := by
    rintro ⟨rest, hrest⟩
    cases hrest
  simp only [isETagMatch, beq_iff_eq, hstar, hsplit, any_cons, any_nil, htrim, if_neg hweak, Bool.or_false,
    Bool.or_eq_true, false_or] at h
  exact h.symm

variable {V : File → Prop} {s : State}

theorem computeETag_known (hV : ∀ f g, V f → V g → f.mtime = g.mtime → f.content = g.content)
    (hs : Known sum64 V s) (readable : Bool) :
    Known sum64 V (computeETag sum64 s readable).2 ∧
      ((computeETag sum64 s readable).1 = [] ∨
        (computeETag sum64 s readable).1 = contentTag sum64 s.file.content) := by
  unfold computeETag
  split
  · next mtime etag hfound =>
    rw [Option.filter_eq_some_iff] at hfound
    obtain ⟨f, hf, he⟩ := hs.cached _ hfound.1
    cases he
    rw [hV f _ hf hs.file (by simpa using hfound.2)]
    exact ⟨hs, .inr rfl⟩
  · split_ifs
    · refine ⟨⟨hs.file, ?_⟩, .inr rfl⟩
      rintro _ ⟨⟩
      exact ⟨_, hs.file, rfl⟩
    · exact ⟨hs, .inl rfl⟩

theorem serveRequest_known (hV : ∀ f g, V f → V g → f.mtime = g.mtime → f.content = g.content)
    (hs : Known sum64 V s) (r : Request) :
    Known sum64 V (serveRequest sum64 maxBytes s r).2 ∧ Strong sum64 maxBytes s r := by
  obtain ⟨hknown, htag⟩ := computeETag_known hV hs r.readable
  simp only [Strong, serveRequest]
  split_ifs with hlarge hcond hhead
  · exact ⟨hs, trivial⟩
  · refine ⟨hknown, fun content hc => ?_⟩
    have hne : r.ifNoneMatch ≠ [] := by
      rw [hc]
      exact nofun
    rw [handleFastConditional, if_pos hne, hc] at hcond
    have hsame := isETagMatch_contentTag hcond
    exact htag.elim (fun h => absurd (h.symm.trans hsame) nofun) fun h => h.symm.trans hsame
  · exact ⟨hknown, nofun⟩
  · refine ⟨hknown, fun content hbody hne => ?_⟩
    rw [← Option.some.inj hbody]
    exact htag.resolve_left hne

/-- If no two versions of the file with different contents have one time, every tag is the hash of
the body it comes with, and a 304 says that the file is what it was. -/
theorem tags_are_strong (start : File) (events : List Event) (r : Request)
    (hV : ∀ f g, f = start ∨ .change f ∈ events → g = start ∨ .change g ∈ events →
      f.mtime = g.mtime → f.content = g.content) :
    Strong sum64 maxBytes (run (step sum64 maxBytes) ⟨start, none⟩ events) r := by
  have hrun : Always (step sum64 maxBytes) (Known sum64 fun f => f = start ∨ .change f ∈ events)
      ⟨start, none⟩ events := by
    refine always_of_along (P := fun _ ev => ev ∈ events) (fun s ev hs hev => ?_) ⟨.inl rfl, nofun⟩
      (along_of_mem (fun _ hev => hev) _)
    cases ev with
    | change f => exact ⟨.inr hev, hs.cached⟩
    | request r => exact (serveRequest_known hV hs r).1
  exact (serveRequest_known hV hrun.last r).2

/-- The file is read, rewritten later, and read again. -/
theorem tags_strong_after_change :
    Strong (fun b => b.length.toUInt64) 9 (run (step (fun b => b.length.toUInt64) 9) ⟨⟨[], 1⟩, none⟩
      [.request ⟨false, true, [], none⟩, .change ⟨[0], 2⟩]) ⟨false, true, [], none⟩ :=
  tags_are_strong _ _ _ (by simp +contextual [or_imp, forall_and])

/-- The file is rewritten within the tick of its clock: the new body has the old tag. -/
theorem rewritten_within_tick :
    let sum64 (b : Bytes) := b.length.toUInt64
    let s := run (step sum64 9) ⟨⟨[], 1⟩, none⟩ [.request ⟨false, true, [], none⟩, .change ⟨[0], 1⟩]
    (serveRequest sum64 9 s ⟨false, true, [], none⟩).1 = .served (contentTag sum64 []) (some [0]) ∧
      (serveRequest sum64 9 s ⟨false, true, contentTag sum64 [], none⟩).1 =
        .notModified (contentTag sum64 []) ∧ contentTag sum64 [] ≠ contentTag sum64 [0] := by
  decide

end Bouine.StaticFile
