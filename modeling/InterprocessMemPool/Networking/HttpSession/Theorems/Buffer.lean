import InterprocessMemPool.Networking.HttpSession.Theorems.Transition

namespace BeastNetworking.HttpSession

variable {shared : Shared} {s s' : HttpSession} {a : Action} {r : Read} {n size : SizeT} {k : ℕ}

-- The region that is read into lies in a buffer of the given size. Its bounds are those of natural numbers.
def Read.Inside (size : SizeT) : Read → Prop
  | .request                    => True
  | .header header_size         => header_size.toNat ≤ size.toNat
  | .body header_size body_size => header_size.toNat + body_size.toNat ≤ size.toNat

theorem Read.Inside.mono {size' : SizeT} (h : r.Inside size) (hs : size ≤ size') : r.Inside size' := by
  have hs := UInt64.le_iff_toNat_le.mp hs
  cases r
  case request => trivial
  case header  => exact Nat.le_trans h hs
  case body    => exact Nat.le_trans h hs

-- The length that the buffer is resized to does not wrap around.
def Read.Fits : Read → Prop
  | .body header_size body_size => header_size.toNat + body_size.toNat < 2 ^ 64
  | _                           => True

structure Buffered (s : HttpSession) : Prop where
  cached : s.nonhttp_buffer_size = s.nonhttp_buffer
  inside : ∀ r ∈ s.reads, r.Fits → r.Inside s.nonhttp_buffer

namespace Buffered

theorem frame (h : Buffered s) (hb : s'.nonhttp_buffer = s.nonhttp_buffer)
    (hs : s'.nonhttp_buffer_size = s.nonhttp_buffer_size) (hr : ∀ r ∈ s'.reads, r ∈ s.reads) :
    Buffered s' where
  cached      := by rw [hb, hs, h.cached]
  inside r hm := hb ▸ h.inside r (hr r hm)

theorem finish_read (h : Buffered s) : Buffered (s.finish_read k) :=
  h.frame rfl rfl fun _ => List.mem_of_mem_eraseIdx

theorem le_resize (h : Buffered s) :
    s.nonhttp_buffer ≤ (s.resize n).nonhttp_buffer ∧ n ≤ (s.resize n).nonhttp_buffer := by
  rw [HttpSession.resize, h.cached]
  split
  case isTrue hn  => exact ⟨UInt64.le_of_lt hn, UInt64.le_refl _⟩
  case isFalse hn => exact ⟨UInt64.le_refl _, UInt64.not_lt.mp hn⟩

theorem resize (h : Buffered s) : Buffered (s.resize n) := by
  have hle := (h.le_resize (n := n)).left
  rw [HttpSession.resize] at hle ⊢
  split
  case isFalse => exact h
  case isTrue hn =>
    rw [if_pos hn] at hle
    exact ⟨rfl, fun r hr hf => (h.inside r hr hf).mono hle⟩

theorem start_read (h : Buffered s) (hr : r.Fits → r.Inside s.nonhttp_buffer) :
    Buffered (s.start_read r) where
  cached := h.cached
  inside r' hm := by
    obtain hm | rfl := by simpa [HttpSession.start_read] using hm
    · exact h.inside r' hm
    · exact hr

theorem do_read (h : Buffered s) : Buffered (s.do_read shared) := by
  rw [HttpSession.do_read]
  split
  case isFalse => exact h.start_read fun _ => trivial
  case isTrue  =>
    have hle := UInt64.le_iff_toNat_le.mp (h.le_resize (n := shared.nonhttp_header_size)).right
    exact h.resize.start_read fun _ => hle

theorem on_nonhttp_read_header {error : Option Error} {body_length : SizeT} (h : Buffered s) :
    Buffered (s.on_nonhttp_read_header shared error body_length) := by
  rw [HttpSession.on_nonhttp_read_header]
  split
  case isTrue => exact h.frame rfl rfl fun _ => id
  case isFalse =>
    split
    case isFalse => exact h
    case isTrue  =>
      refine h.resize.start_read fun hf => ?_
      have hle := UInt64.le_iff_toNat_le.mp
        (h.le_resize (n := body_length + shared.nonhttp_header_size)).right
      simp only [Read.Fits] at hf
      rw [UInt64.toNat_add, Nat.mod_eq_of_lt (by omega)] at hle
      simp only [Read.Inside]
      omega

theorem on_nonhttp_read_body {error : Option Error} {header_size body_size bytes : SizeT}
    (h : Buffered s) : Buffered (s.on_nonhttp_read_body shared header_size body_size error bytes) := by
  simp only [HttpSession.on_nonhttp_read_body]
  split
  case isTrue  => exact h.frame rfl rfl fun _ => id
  case isFalse => exact (h.frame rfl rfl fun _ => id : Buffered (s.on_http_read _)).do_read

theorem respond {msg : Response} (h : Buffered s) : Buffered (s.respond msg) := by
  simp only [HttpSession.respond]
  split <;> exact h.frame rfl rfl fun _ => id

theorem on_post {posted : Option Text} (h : Buffered s) : Buffered (s.on_post posted) := by
  cases posted
  case none => exact h
  case some => exact h.frame rfl rfl fun _ => id

theorem handle {e : Exchange} (h : Buffered s) : Buffered (s.handle shared e) := by
  simp only [HttpSession.handle]
  split
  case isTrue  => exact h.on_post.respond
  case isFalse => exact h.on_post.respond.do_read

theorem on_read {file : Text → FileResult} {result : ReadResult} (h : Buffered s)
    (he : s.on_read shared file result = .ok s') : Buffered s' := by
  obtain ⟨_, rfl⟩ | ⟨_, rfl⟩ | ⟨_, rfl⟩ | ⟨_, e, _, rfl⟩ := on_read_cases he
  · exact h.frame rfl rfl fun _ => id
  · exact h
  · exact h.frame rfl rfl fun _ => id
  · exact h.handle

theorem on_write {close : Bool} {ec : Option Error} (h : Buffered s)
    (he : s.on_write shared close ec = .ok s') : Buffered s' := by
  obtain rfl | rfl | ⟨msg, queue, _, _, rfl⟩ := on_write_cases he
  · exact h
  · exact h.frame rfl rfl fun _ => id
  · have hq : Buffered { s with queue, writes := s.writes ++ queue.head?.toList } :=
      h.frame rfl rfl fun _ => id
    simp only [dequeue]
    split
    case isTrue  => exact hq.do_read
    case isFalse => exact hq

theorem on_write2 {ec : Option Error} {bytes : SizeT} {op : Operation} (h : Buffered s)
    (he : (s.transfer ec bytes op).on_write2 k ec bytes = .ok s') : Buffered s' := by
  obtain ⟨sending, _, rfl⟩ := Except.map_eq_ok.mp he
  cases op
  case post => exact h.frame rfl rfl fun _ => id
  case write m => cases ec <;> exact h.frame rfl rfl fun _ => id

theorem step (h : Buffered s) (t : Transition shared s a s') : Buffered s' := by
  cases t
  case on_send                => exact h.frame rfl rfl fun _ => id
  case on_write2 he           => exact h.on_write2 he
  case on_read he             => exact h.finish_read.on_read he
  case on_write he            => exact (h.frame rfl rfl fun _ => id : Buffered (s.finish_write _)).on_write he
  case on_nonhttp_read_header => exact h.finish_read.on_nonhttp_read_header
  case on_nonhttp_read_body   => exact h.finish_read.on_nonhttp_read_body

end Buffered

theorem buffered_of_reachable (h : (system shared).Reachable s) : Buffered s := by
  refine System.Invariant.holds ⟨?_, fun _ h hs => h.step (transition_of_next hs).right⟩ h
  rintro _ ⟨ssl, rfl⟩
  exact (⟨rfl, by simp⟩ : Buffered { ssl }).do_read

theorem inside_iff_fits (h : (system shared).Reachable s) {header_size body_size : SizeT}
    (hr : .body header_size body_size ∈ s.reads) :
    (Read.body header_size body_size).Inside s.nonhttp_buffer ↔
      header_size.toNat + body_size.toNat < 2 ^ 64 :=
  ⟨fun hi => Nat.lt_of_le_of_lt hi (SizeT.toNat_lt _), (buffered_of_reachable h).inside _ hr⟩

theorem reads_of_header (h : s.next shared (.on_nonhttp_read_header k none n) = some s')
    (hc : shared.callbackGetBodyLengthFromNonHTTPHeader) :
    s'.reads = s.reads.eraseIdx k ++ [.body shared.nonhttp_header_size n] := by
  obtain ⟨_, t⟩ := transition_of_next h
  cases t
  simp only [on_nonhttp_read_header, hc, Option.isSome_none, Bool.false_eq_true, if_false, if_true]
  simp only [start_read, resize]
  split <;> rfl

-- A body is read into the buffer just if the length of the message does not wrap around.
theorem body_inside_iff (shared : Shared) :
    (∀ {s}, (system shared).Reachable s → ∀ {header_size body_size},
      .body header_size body_size ∈ s.reads →
        ((Read.body header_size body_size).Inside s.nonhttp_buffer ↔
          header_size.toNat + body_size.toNat < 2 ^ 64)) ∧
    (shared.callbackGetBodyLengthFromNonHTTPHeader → ∀ {s s' : HttpSession} {k body_length},
      s.next shared (.on_nonhttp_read_header k none body_length) = some s' →
        s'.reads = s.reads.eraseIdx k ++ [.body shared.nonhttp_header_size body_length]) :=
  ⟨inside_iff_fits, fun hc _ _ _ _ h => reads_of_header h hc⟩

-- A session which has got its first header, and reads the body that is said to follow.
def reading (header_size buffer_size body_size : SizeT) : HttpSession where
  ssl                 := false
  nonhttp_buffer      := buffer_size
  nonhttp_buffer_size := buffer_size
  reads               := [.body header_size body_size]

theorem body_inside_iff_run : ∃ s : HttpSession, s.reads = [.body 4 6] ∧
    (Read.body 4 6).Inside s.nonhttp_buffer := by
  obtain ⟨hi, hr⟩ := body_inside_iff (raw 4)
  have hs : (start (raw 4) false).next (raw 4) (.on_nonhttp_read_header 0 none 6) =
    some (reading 4 10 6) := rfl
  have hm := hi (reachable_start.step hs) (List.mem_singleton.mpr rfl)
  exact ⟨reading 4 10 6, hr rfl hs, hm.mpr (by decide)⟩

-- The length of a message with a header of 8 bytes and a body of 2⁶⁴ - 4 bytes is taken to be 4.
theorem not_body_inside : ∃ s, (system (raw 8)).Reachable s ∧
    .body 8 18446744073709551612 ∈ s.reads ∧
    ¬(Read.body 8 18446744073709551612).Inside s.nonhttp_buffer := by
  have hs : (start (raw 8) false).next (raw 8) (.on_nonhttp_read_header 0 none 18446744073709551612) =
    some (reading 8 8 18446744073709551612) := rfl
  refine ⟨_, reachable_start.step hs, List.mem_singleton.mpr rfl, ?_⟩
  exact show ¬8 + 18446744073709551612 ≤ 8 by decide

end BeastNetworking.HttpSession
