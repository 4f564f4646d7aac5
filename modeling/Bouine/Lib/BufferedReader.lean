import Bouine.Lib.Bytes
import Bouine.Lib.Transition

/-! # A buffered reader over a replayed prefix

`Source` is a connection that yields the bytes of a prefix and then those of a socket, which arrive
in chunks. `Reader` is a `bufio.Reader` of a fixed size over a source, with what has been taken from
it. However it is used, it reorders and loses no byte; and the socket is not touched while the
prefix lasts.
-/

namespace Bouine.Lib

open Transition List

def readChunk (n : Nat) : List Bytes → Bytes × List Bytes
  | [] => ([], [])
  | c :: cs => if c.length ≤ n then (c, cs) else (c.take n, c.drop n :: cs)

theorem readChunk_flatten (n : Nat) (cs : List Bytes) :
    (readChunk n cs).1 ++ (readChunk n cs).2.flatten = cs.flatten := by
  cases cs with
  | nil => rfl
  | cons c cs =>
    rw [readChunk]
    split_ifs
    · rfl
    · simp [← append_assoc]

structure Source where
  front : Bytes
  chunks : List Bytes

namespace Source

def bytes (s : Source) : Bytes := s.front ++ s.chunks.flatten

/-- One read of at most `n` bytes: from the prefix while there is one. -/
def read (s : Source) (n : Nat) : Bytes × Source :=
  if s.front = [] then ((readChunk n s.chunks).1, ⟨[], (readChunk n s.chunks).2⟩)
  else (s.front.take n, ⟨s.front.drop n, s.chunks⟩)

theorem read_bytes (s : Source) (n : Nat) : (s.read n).1 ++ (s.read n).2.bytes = s.bytes := by
  unfold read bytes
  split_ifs with h
  · simp [h, readChunk_flatten]
  · simp [← append_assoc]

theorem front_read (s : Source) (n : Nat) : (s.read n).2.front = s.front.drop n := by
  unfold read
  split_ifs with h <;> simp [h]

theorem read_front_or_chunks (s : Source) (n : Nat) :
    (s.read n).2.front = [] ∨ (s.read n).2.chunks = s.chunks := by
  unfold read
  split_ifs <;> simp

end Source

structure Reader where
  taken : Bytes
  buffered : Bytes
  source : Source

inductive ReadOp where
  | fill
  | read (n : Nat)

namespace Reader

def reset (s : Source) : Reader := ⟨[], [], s⟩

def step (size : Nat) (r : Reader) : ReadOp → Reader
  | .fill =>
    let read := r.source.read (size - r.buffered.length)
    { r with buffered := r.buffered ++ read.1, source := read.2 }
  | .read n =>
    if n = 0 then r
    else if r.buffered ≠ [] then
      { r with taken := r.taken ++ r.buffered.take n, buffered := r.buffered.drop n }
    else if size ≤ n then
      let read := r.source.read n
      { r with taken := r.taken ++ read.1, source := read.2 }
    else
      let read := r.source.read size
      ⟨r.taken ++ read.1.take n, read.1.drop n, read.2⟩

def all (r : Reader) : Bytes := r.taken ++ (r.buffered ++ r.source.bytes)

variable {size : Nat}

theorem all_step (r : Reader) (op : ReadOp) : (r.step size op).all = r.all := by
  cases op with
  | fill =>
    have := r.source.read_bytes (size - r.buffered.length)
    simp [step, all, this]
  | read n =>
    simp only [step]
    split_ifs with hn hbuf hsize
    · rfl
    · simp only [all, append_assoc]
      rw [← append_assoc (r.buffered.take n), take_append_drop]
    · have := r.source.read_bytes n
      simp [all, show r.buffered = [] by simpa using hbuf, this]
    · have := r.source.read_bytes size
      rw [← take_append_drop n (r.source.read size).1, append_assoc] at this
      simp [all, show r.buffered = [] by simpa using hbuf, this]

theorem all_run (r : Reader) (ops : List ReadOp) : (run (step size) r ops).all = r.all :=
  @run_preserves _ _ (step size) (fun r' => r'.all = r.all)
    (fun r' op h => (all_step r' op).trans h) r rfl ops

theorem length_read (s : Source) (n : Nat) : (s.read n).1.length ≤ n := by
  unfold Source.read
  split_ifs
  · cases s.chunks with
    | nil => simp [readChunk]
    | cons c s.chunks =>
      rw [readChunk]
      split_ifs with h
      · exact h
      · exact length_take_le n c
  · exact length_take_le n s.front

theorem buffered_run (r : Reader) (ops : List ReadOp) (h : r.buffered.length ≤ size) :
    (run (step size) r ops).buffered.length ≤ size := by
  refine @run_preserves _ _ (step size) (fun r => r.buffered.length ≤ size) ?_ r h ops
  intro r op h
  cases op with
  | fill =>
    have := length_read r.source (size - r.buffered.length)
    simp only [step, length_append]
    omega
  | read n =>
    simp only [step]
    split_ifs
    · exact h
    · simp only [length_drop]
      omega
    · exact h
    · have := length_read r.source size
      simp only [length_drop]
      omega

/-- While some of the prefix is left the socket has not been read. -/
theorem front_or_chunks_run (s : Source) (ops : List ReadOp) :
    (run (step size) (reset s) ops).source.front = [] ∨
      (run (step size) (reset s) ops).source.chunks = s.chunks := by
  refine @run_preserves _ _ (step size)
    (fun r => r.source.front = [] ∨ r.source.chunks = s.chunks) ?_ (reset s) (.inr rfl) ops
  have hread : ∀ (t : Source) (n : Nat), t.front = [] ∨ t.chunks = s.chunks →
      (t.read n).2.front = [] ∨ (t.read n).2.chunks = s.chunks := by
    intro t n ht
    rcases ht with hfront | hchunks
    · left
      rw [Source.front_read, hfront, drop_nil]
    · rcases t.read_front_or_chunks n with h | h
      · exact .inl h
      · exact .inr (h.trans hchunks)
  intro r op h
  cases op with
  | fill => exact hread r.source _ h
  | read n =>
    simp only [step]
    split_ifs
    · exact h
    · exact h
    · exact hread r.source n h
    · exact hread r.source size h

/-- A prefix that fits the buffer is gone after the first read. -/
theorem front_nil_of_fits {s : Source} {ops : List ReadOp} (hfit : s.front.length ≤ size)
    (htaken : (run (step size) (reset s) ops).taken ≠ []) :
    (run (step size) (reset s) ops).source.front = [] := by
  have hstep : ∀ (r : Reader) (op : ReadOp),
      (r.source.front = [] ∨ r.taken = [] ∧ r.buffered = [] ∧ r.source.front.length ≤ size) →
      ((r.step size op).source.front = [] ∨ (r.step size op).taken = [] ∧
        (r.step size op).buffered = [] ∧ (r.step size op).source.front.length ≤ size) := by
    intro r op h
    have hread : ∀ n, (r.source.front = [] ∨ r.source.front.length ≤ n) →
        (r.source.read n).2.front = [] := by
      intro n hn
      rw [Source.front_read]
      rcases hn with hn | hn
      · rw [hn, drop_nil]
      · exact drop_of_length_le hn
    cases op with
    | fill =>
      left
      refine hread _ (h.imp_right fun h => ?_)
      rw [h.2.1]
      exact h.2.2
    | read n =>
      simp only [step]
      split_ifs with hn hbuf hsize
      · exact h
      · exact .inl (h.resolve_right fun h => hbuf h.2.1)
      · exact .inl (hread n (h.imp_right fun h => h.2.2.trans hsize))
      · exact .inl (hread size (h.imp_right fun h => h.2.2))
  have := @run_preserves _ _ (step size) _ hstep (reset s) (.inr ⟨rfl, rfl, hfit⟩) ops
  exact this.resolve_right fun h => htaken h.1

/-- A prefix is gone once as many bytes have been taken as it had. -/
theorem front_nil_of_taken {s : Source} {ops : List ReadOp}
    (h : s.front.length ≤ (run (step size) (reset s) ops).taken.length) :
    (run (step size) (reset s) ops).source.front = [] := by
  rcases front_or_chunks_run s ops with hfront | hchunks
  · exact hfront
  · have hall := congrArg length (@all_run size (reset s) ops)
    have hstart : (reset s).all = s.bytes := rfl
    rw [hstart] at hall
    simp only [all, Source.bytes, length_append, hchunks] at hall
    exact eq_nil_of_length_eq_zero (by omega)

end Reader

end Bouine.Lib
