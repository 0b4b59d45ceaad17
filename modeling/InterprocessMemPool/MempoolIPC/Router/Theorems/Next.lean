import InterprocessMemPool.MempoolIPC.Router.Theorems.Effect

-- What each step of a call on a router is, with all that it has found.

namespace RouterIPC

variable {α : Type*} {r r' : RouterIPC α} {x : Choice α}

inductive Send.Next (b : Bool) (r : RouterIPC α) : Send α → RouterIPC α → Send α → Prop
  | acquire {ptr mode timeout} (hm : r.mutex = false) :
    Next b r ⟨ptr, mode, timeout, .entered⟩
      { r with mutex := true } ⟨ptr, mode, timeout, .sweeping 0 0⟩
  | finish {ptr mode timeout i n} (hi : ¬(i : ℕ) < SizeT.toInt r.pipes.length) :
    Next b r ⟨ptr, mode, timeout, .sweeping i n⟩
      { r with mutex := false } ⟨ptr, mode, timeout, .returned n⟩
  | pop {ptr mode timeout i n k} (hi : (i : ℕ) < SizeT.toInt r.pipes.length) (hk : r.pipes[i]? = some k)
    (hd : r.lock k = none) :
    Next b r ⟨ptr, mode, timeout, .sweeping i n⟩
      { r with pipes := swapPop r.pipes i } ⟨ptr, mode, timeout, .sweeping i n⟩
  | take {ptr mode timeout i n k r'} (hi : (i : ℕ) < SizeT.toInt r.pipes.length)
    (hk : r.pipes[i]? = some k) (hl : r.lock k = some r') :
    Next b r ⟨ptr, mode, timeout, .sweeping i n⟩
      r' ⟨ptr, mode, timeout, .sending i n k ⟨ptr, mode, timeout, .entered⟩⟩
  | report {ptr mode timeout i n k c hadError} (hc : c.pc = .returned hadError) :
    Next b r ⟨ptr, mode, timeout, .sending i n k c⟩
      (r.release k) ⟨ptr, mode, timeout, .sweeping (i + 1) (if hadError then n + 1 else n)⟩
  | within {ptr mode timeout i n k c e p c'} (hc : ∀ hadError, c.pc ≠ .returned hadError)
    (he : r.segment[k]? = some e) (hs : c.step b e.pipe = some (p, c')) :
    Next b r ⟨ptr, mode, timeout, .sending i n k c⟩
      (r.modify k fun e => { e with pipe := p }) ⟨ptr, mode, timeout, .sending i n k c'⟩

theorem Send.next_of_step {s s' : Send α} {b : Bool} (h : s.step b r = some (r', s')) :
    Next b r s r' s' := by
  obtain ⟨ptr, mode, timeout, pc⟩ := s
  cases pc <;> simp only [step, reduceCtorEq] at h
  case entered =>
    simp only [Option.ite_none_left_eq_some, Option.some.injEq, Prod.mk.injEq] at h
    obtain ⟨hm, rfl, rfl⟩ := h
    exact .acquire (Bool.eq_false_of_not_eq_true hm)
  case sweeping i n =>
    split at h
    case isFalse hi =>
      obtain ⟨rfl, rfl⟩ := Prod.mk.inj (Option.some.inj h)
      exact .finish hi
    case isTrue hi =>
      obtain ⟨k, hk, h⟩ := Option.map_eq_some_iff.mp h
      split at h <;> obtain ⟨rfl, rfl⟩ := Prod.mk.inj h
      case h_1 => exact .pop hi hk ‹r.lock k = none›
      case h_2 => exact .take hi hk ‹r.lock k = _›
  case sending i n k c =>
    split at h
    case h_1 hc =>
      obtain ⟨rfl, rfl⟩ := Prod.mk.inj (Option.some.inj h)
      exact .report hc
    case h_2 hc =>
      obtain ⟨e, p, c', he, hs, rfl, rfl⟩ := through_eq_some h
      exact .within hc he hs

inductive Receiver.Next (x : Choice α) (r : RouterIPC α) :
    Receiver α → RouterIPC α → Receiver α → Prop
  | exhausted {capacity_in} : Next x r (.registering capacity_in) r .dropped
  | construct {capacity_in} :
    Next x r (.registering capacity_in)
      { r with segment := r.segment ++ [⟨.new capacity_in, 1⟩] } (.pushing r.segment.length)
  | discard {k : ℕ} (hx : x.noMemory) (hm : r.mutex = false) : Next x r (.pushing k) (r.release k) .dropped
  | push {k : ℕ} (hx : x.noMemory = false) (hm : r.mutex = false) :
    Next x r (.pushing k) { r with pipes := r.pipes ++ [k] } (.holding k)
  | copy {k : ℕ} {r' : RouterIPC α} (hl : r.lock k = some r') : Next x r (.copying k) r' (.holding k)
  | drop {k : ℕ} (hx : x.call = none) : Next x r (.holding k) (r.release k) .dropped
  | call {k : ℕ} {c : PipeIPC.Call α} (hx : x.call = some c) (hc : c.starts) :
    Next x r (.holding k) r (.calling k c)
  | report {k : ℕ} {c : PipeIPC.Call α} (hc : c.returned) : Next x r (.calling k c) r (.holding k)
  | within {k : ℕ} {c c' : PipeIPC.Call α} {e : PipeIPC.Counted α} {p : PipeIPC α}
    (hc : c.returned = false) (he : r.segment[k]? = some e)
    (hs : c.step x.expired e.pipe = some (p, c')) :
    Next x r (.calling k c) (r.modify k fun e => { e with pipe := p }) (.calling k c')

theorem Receiver.next_of_step {s s' : Receiver α} (h : s.step x r = some (r', s')) :
    Next x r s r' s' := by
  cases s <;> simp only [step, reduceCtorEq] at h
  case registering =>
    split at h <;> obtain ⟨rfl, rfl⟩ := Prod.mk.inj (Option.some.inj h)
    case isTrue  => exact .exhausted
    case isFalse => exact .construct
  case pushing k =>
    simp only [Option.ite_none_left_eq_some, Bool.not_eq_true] at h
    obtain ⟨hm, h⟩ := h
    split at h <;> obtain ⟨rfl, rfl⟩ := Prod.mk.inj (Option.some.inj h)
    case isTrue hx  => exact .discard hx hm
    case isFalse hx => exact .push (Bool.eq_false_of_not_eq_true hx) hm
  case copying k =>
    obtain ⟨_, hl, h⟩ := Option.map_eq_some_iff.mp h
    obtain ⟨rfl, rfl⟩ := Prod.mk.inj h
    exact .copy hl
  case holding k =>
    split at h
    case h_1 hx =>
      obtain ⟨rfl, rfl⟩ := Prod.mk.inj (Option.some.inj h)
      exact .drop hx
    case h_2 hx =>
      simp only [Option.ite_none_right_eq_some, Option.some.injEq, Prod.mk.injEq] at h
      obtain ⟨hc, rfl, rfl⟩ := h
      exact .call hx hc
  case calling k c =>
    split at h
    case h_1 hc =>
      obtain ⟨rfl, rfl⟩ := Prod.mk.inj (Option.some.inj h)
      exact .report hc
    case h_2 hc =>
      obtain ⟨_, _, _, he, hs, rfl, rfl⟩ := through_eq_some h
      exact .within hc he hs

inductive Shutdown.Next (r : RouterIPC α) : Shutdown → RouterIPC α → Shutdown → Prop
  | acquire (hm : r.mutex = false) : Next r .entered { r with mutex := true } (.sweeping 0)
  | finish {i : ℕ} (hi : r.pipes[i]? = none) : Next r (.sweeping i) { r with mutex := false } .returned
  | skip {i k : ℕ} (hk : r.pipes[i]? = some k) (hd : r.lock k = none) :
    Next r (.sweeping i) r (.sweeping (i + 1))
  | take {i k : ℕ} {r' : RouterIPC α} (hk : r.pipes[i]? = some k) (hl : r.lock k = some r') :
    Next r (.sweeping i) r' (.shuttingDown i k .entered)
  | report {i k : ℕ} : Next r (.shuttingDown i k .returned) (r.release k) (.sweeping (i + 1))
  | within {i k : ℕ} {c c' : PipeIPC.Shutdown} {e : PipeIPC.Counted α} {p : PipeIPC α}
    (he : r.segment[k]? = some e) (hs : c.step e.pipe = some (p, c')) :
    Next r (.shuttingDown i k c) (r.modify k fun e => { e with pipe := p }) (.shuttingDown i k c')

theorem Shutdown.next_of_step {s s' : Shutdown} (h : s.step r = some (r', s')) : Next r s r' s' := by
  cases s <;> simp only [step, reduceCtorEq] at h
  case entered =>
    simp only [Option.ite_none_left_eq_some, Option.some.injEq, Prod.mk.injEq] at h
    obtain ⟨hm, rfl, rfl⟩ := h
    exact .acquire (Bool.eq_false_of_not_eq_true hm)
  case sweeping i =>
    split at h
    case h_1 hi =>
      obtain ⟨rfl, rfl⟩ := Prod.mk.inj (Option.some.inj h)
      exact .finish hi
    case h_2 hk =>
      split at h <;> obtain ⟨rfl, rfl⟩ := Prod.mk.inj (Option.some.inj h)
      case h_1 hd => exact .skip hk hd
      case h_2 hl => exact .take hk hl
  case shuttingDown i k c =>
    split at h
    case h_1 =>
      obtain ⟨rfl, rfl⟩ := Prod.mk.inj (Option.some.inj h)
      exact .report
    case h_2 =>
      obtain ⟨_, _, _, he, hs, rfl, rfl⟩ := through_eq_some h
      exact .within he hs

inductive NumReceivers.Next (r : RouterIPC α) : NumReceivers → RouterIPC α → NumReceivers → Prop
  | acquire (hm : r.mutex = false) : Next r .entered { r with mutex := true } (.sweeping 0 0)
  | finish {i count : ℕ} (hi : r.pipes[i]? = none) :
    Next r (.sweeping i count) { r with mutex := false } (.returned count)
  | skip {i count k : ℕ} (hk : r.pipes[i]? = some k) (hd : r.lock k = none) :
    Next r (.sweeping i count) r (.sweeping (i + 1) count)
  | take {i count k : ℕ} {r' : RouterIPC α} (hk : r.pipes[i]? = some k) (hl : r.lock k = some r') :
    Next r (.sweeping i count) r' (.counting i count k)
  | report {i count k : ℕ} :
    Next r (.counting i count k) (r.release k) (.sweeping (i + 1) (count + 1))

theorem NumReceivers.next_of_step {s s' : NumReceivers} (h : s.step r = some (r', s')) :
    Next r s r' s' := by
  cases s <;> simp only [step, reduceCtorEq] at h
  case entered =>
    simp only [Option.ite_none_left_eq_some, Option.some.injEq, Prod.mk.injEq] at h
    obtain ⟨hm, rfl, rfl⟩ := h
    exact .acquire (Bool.eq_false_of_not_eq_true hm)
  case sweeping i n =>
    split at h
    case h_1 hi =>
      obtain ⟨rfl, rfl⟩ := Prod.mk.inj (Option.some.inj h)
      exact .finish hi
    case h_2 hk =>
      split at h <;> obtain ⟨rfl, rfl⟩ := Prod.mk.inj (Option.some.inj h)
      case h_1 hd => exact .skip hk hd
      case h_2 hl => exact .take hk hl
  case counting =>
    obtain ⟨rfl, rfl⟩ := Prod.mk.inj (Option.some.inj h)
    exact .report

end RouterIPC
