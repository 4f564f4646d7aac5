import Bouine.Cache.Captured

/-! # Fields of the client's connection

Which lines of the client's request the requests to the origin are built from: the miss and the
revalidation copy them by `copyOutboundHeaders`, the streaming fetch one by one
(`internal/cache/stream.go`), and the fetches in the background set what was captured
(`internal/cache/handler.go`). A field is of the connection if it is in a fixed list or the client's
Connection field names it.
-/

namespace Bouine.Cache

open Lib Header

/-! ## The fields of a connection -/

def Field.connectionFields : List Bytes :=
  [ascii "Connection", ascii "Keep-Alive", ascii "TE", ascii "Trailer", ascii "Upgrade",
    ascii "Proxy-Connection", ascii "Transfer-Encoding"]

def connectionOptions (ls : List Line) : List Bytes :=
  (valuesOf Field.connection ls).flatMap listMembers

def HopByHop (client : Raw) (name : Bytes) : Prop :=
  ∃ n ∈ Field.connectionFields ++ connectionOptions client.lines, equalFold name n = true

instance (client : Raw) (name : Bytes) : Decidable (HopByHop client name) :=
  inferInstanceAs (Decidable (∃ n ∈ _, _))

/-! ## The requests to the origin -/

inductive OriginFetch where
  /-- `doFetchFast` -/
  | miss
  /-- `doFetchStream` -/
  | streaming
  | revalidation (stale : Validators)
  /-- `doBackgroundRevalidate` -/
  | background (stale : Validators)
  /-- `doShedRefill` -/
  | shedRefill

namespace OriginFetch

def copied : OriginFetch → Raw → Raw
  | miss, client | revalidation _, client => copyOutboundHeaders client
  | streaming, client => client
  | background _, client | shedRefill, client => replayHeaders (headerFromCtx client)

variable {W : Type*} (h : Outbound W)

def request : OriginFetch → Raw → Raw
  | miss, client => fetchRequest h client
  | streaming, client => streamRequest h client
  | revalidation stale, client => revalidateRequest h client stale
  | background stale, client => backgroundRequest h (headerFromCtx client) stale
  | shedRefill, client => refillRequest h (headerFromCtx client)

def skips : OriginFetch → List Bytes
  | miss | revalidation _ => Field.hopByHop
  | streaming | background _ | shedRefill => []

def KeepsHopByHop (f : OriginFetch) (client : Raw) : Prop :=
  ∀ name, HopByHop client name → (f.copied client).peekAll name = []

end OriginFetch

def Field.ownRequest : List Bytes :=
  Field.forwarded ++
    [Field.acceptEncoding, Field.acceptLanguage, Field.ifNoneMatch, Field.ifModifiedSince]

/-! ## What is taken over -/

section

variable (f : OriginFetch) (client : Raw) (name : Bytes)

theorem peekAll_copied_eq_nil_iff :
    (f.copied client).peekAll name = [] ↔ name ∈ f.skips ∨ client.peekAll name = [] := by
  have hcopy : (copyOutboundHeaders client).peekAll name = [] ↔
      name ∈ Field.hopByHop ∨ client.peekAll name = [] := by
    rw [peekAll_copyOutboundHeaders, endToEnd]
    split_ifs with hhop <;> simp [hhop]
  have hreplay : (replayHeaders (headerFromCtx client)).peekAll name = [] ↔
      client.peekAll name = [] := by
    rw [peekAll_replayHeaders, valuesOf_headerFromCtx]
    cases hlast : (client.peekAll name).getLast? with
    | none => simpa using hlast
    | some v =>
      have hne : client.peekAll name ≠ [] := fun hnil => by simp [hnil] at hlast
      simp [hne]
  cases f with
  | miss | revalidation stale => exact hcopy
  | streaming => simp [OriginFetch.copied, OriginFetch.skips]
  | background stale | shedRefill => simpa [OriginFetch.copied, OriginFetch.skips] using hreplay

theorem peekAll_request_of_copied {W : Type*} (h : Outbound W) (hname : name ∉ Field.ownRequest) :
    (f.request h client).peekAll name = (f.copied client).peekAll name := by
  simp only [Field.ownRequest, List.mem_append, List.mem_cons, List.not_mem_nil, or_false,
    not_or] at hname
  obtain ⟨hfwd, henc, hlang, hinm, hims⟩ := hname
  have hbucket (hdr : Raw) : (h.forwarding.apply (rewriteOutboundAE h hdr)).peekAll name =
      hdr.peekAll name := by
    rw [h.forwarding.keeps _ _ hfwd, peekAll_rewriteOutboundAE, bucketedLines, if_neg henc,
      if_neg hlang, ite_self]
  have hvalidated (hdr : Raw) (v : Validators) :
      (setConditionalHeaders h hdr v).peekAll name = hdr.peekAll name := by
    rw [peekAll_setConditionalHeaders, validatedLines, if_neg fun hc => hinm hc.1]
    cases v.lastModified with
    | none => rfl
    | some t => exact if_neg hims
  cases f with
  | miss | streaming | shedRefill => exact hbucket _
  | revalidation stale | background stale => exact (hvalidated _ stale).trans (hbucket _)

end

/-- A request takes over no field of the client's connection exactly if its copy skips every line of
such a field; and but for the fields that the cache writes itself, what is taken over is what is
sent. -/
theorem hop_by_hop_kept_iff {W : Type*} (h : Outbound W) (f : OriginFetch) (client : Raw) :
    (f.KeepsHopByHop client ↔ ∀ l ∈ client.lines, HopByHop client l.name → l.name ∈ f.skips) ∧
    ∀ name, name ∉ Field.ownRequest →
      (f.request h client).peekAll name = (f.copied client).peekAll name := by
  refine ⟨?_, fun name hname => peekAll_request_of_copied f client name h hname⟩
  simp only [OriginFetch.KeepsHopByHop, peekAll_copied_eq_nil_iff]
  constructor
  · intro hall l hl hhop
    exact (hall l.name hhop).resolve_right fun hnone =>
      Map.valuesOf_eq_nil_iff.1 hnone l hl rfl
  · intro hall name hhop
    by_cases hskip : name ∈ f.skips
    · exact .inl hskip
    · refine .inr (Map.valuesOf_eq_nil_iff.2 fun l hl heq => ?_)
      subst heq
      exact hskip (hall l hl hhop)

def hopClient : Raw :=
  ⟨[⟨Field.connection, ascii "Keep-Alive, X-Hop"⟩, ⟨ascii "Keep-Alive", ascii "timeout=5"⟩,
    ⟨ascii "Te", ascii "trailers"⟩, ⟨ascii "X-Hop", ascii "1"⟩]⟩

/-- Streaming and the fetches in the background take over all of it, a miss and a revalidation two
fields: `TE` is compared in the wrong case, and the names in Connection are not read. -/
theorem hop_by_hop_copied :
    (hopClient.lines.all fun l => decide (HopByHop hopClient l.name)) = true ∧
    OriginFetch.streaming.copied hopClient = hopClient ∧
    (OriginFetch.shedRefill.copied hopClient).lines.length = 4 ∧
    ((OriginFetch.background ⟨[], none⟩).copied hopClient).lines.length = 4 ∧
    (OriginFetch.miss.copied hopClient).lines =
      [⟨ascii "Te", ascii "trailers"⟩, ⟨ascii "X-Hop", ascii "1"⟩] ∧
    ((OriginFetch.revalidation ⟨[], none⟩).copied hopClient).lines =
      [⟨ascii "Te", ascii "trailers"⟩, ⟨ascii "X-Hop", ascii "1"⟩] := by
  decide

end Bouine.Cache
