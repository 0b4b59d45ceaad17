import InterprocessMemPool.Networking.HttpSession.Theorems.Writers

namespace BeastNetworking.HttpSession

open SendQueue

-- A session, which can be destroyed at any time. `send_queue_` has no part in the destructors: it is
-- destroyed with the session, and so are the handlers that are in it. The handlers of operations that are
-- still outstanding will never be called.
structure Lifetime where
  session   : HttpSession
  destroyed : Bool := false
  deriving DecidableEq

namespace Lifetime

variable {shared : Shared} {c c' : Lifetime}

def destroy (c : Lifetime) : Lifetime where
  session   := { c.session with
    sending := { c.session.sending with queue := [], queue_size := 0, operations := [] }
    reads   := []
    writes  := [] }
  destroyed := true

inductive Action
  | handle (a : HttpSession.Action)
  | destroy

variable {a : Action}

def next (shared : Shared) (c : Lifetime) (a : Action) : Option Lifetime :=
  if c.destroyed then none else
  match a with
  | .handle a => (c.session.next shared a).map fun session => { c with session }
  | .destroy  => some c.destroy

def system (shared : Shared) :=
  System.ofNext (fun c => ∃ ssl, c = ⟨start shared ssl, false⟩) (next shared)

theorem session_reachable (h : (system shared).Reachable c) (hd : c.destroyed = false) :
    (HttpSession.system shared).Reachable c.session := by
  refine System.Invariant.holds
    (I := fun c => c.destroyed = false → (HttpSession.system shared).Reachable c.session) ⟨?_, ?_⟩ h hd
  · rintro _ ⟨ssl, rfl⟩ _
    exact reachable_start
  · intro c a c' _ ih hn hd
    obtain ⟨hd', hn⟩ := Option.ite_none_left_eq_some.mp hn
    cases a
    case destroy  => simp [← Option.some.inj hn, destroy] at hd
    case handle a =>
      obtain ⟨session, hs, rfl⟩ := Option.map_eq_some_iff.mp hn
      exact (ih (by simpa using hd')).step hs

-- The handlers that can still be called.
def pending (c : Lifetime) : List ℕ :=
  if c.destroyed then [] else handlers c.session.sending.queue

-- Every completion handler that was accepted has been called once, or it can still be called.
def HandledOnce (c : Lifetime) : Prop :=
  (c.session.sending.invoked ++ c.pending).Perm (handlers c.session.sending.accepted)

-- If the session is to be destroyed, then there is no handler left in the queue.
def Drained (c : Lifetime) : Action → Prop
  | .handle _ => True
  | .destroy  => handlers c.session.sending.queue = []

instance : Decidable (Drained c a) :=
  match a with
  | .handle _ => inferInstanceAs (Decidable True)
  | .destroy  => inferInstanceAs (Decidable (_ = _))

theorem handledOnce_of_not_destroyed (h : (system shared).Reachable c) (hd : c.destroyed = false) :
    HandledOnce c := by
  rw [HandledOnce, pending, hd]
  exact (queued_of_reachable (session_reachable h hd)).sound.invoked_perm

theorem handledOnce_destroy_iff (h : HandledOnce c) (hd : c.destroyed = false) :
    HandledOnce c.destroy ↔ handlers c.session.sending.queue = [] := by
  rw [HandledOnce, pending, hd] at h
  constructor
  · intro hd
    have hlen := h.length_eq.trans hd.length_eq.symm
    simpa [destroy, pending, invoked] using hlen
  · intro hq
    rw [if_neg Bool.false_ne_true, hq] at h
    exact h

-- The handlers are called once just if no message with a handler is in the queue when the session is
-- destroyed.
theorem handledOnce_iff (shared : Shared) :
    (∀ {c}, ((system shared).restrict Drained).Reachable c → HandledOnce c) ∧
    (∀ {c c' : Lifetime}, (system shared).Reachable c → c.next shared .destroy = some c' →
      (HandledOnce c' ↔ Drained c .destroy)) := by
  have destroyed {c c' : Lifetime} (hn : c.next shared .destroy = some c') : c.destroyed = false ∧ c' = c.destroy := by
    obtain ⟨hd, hn⟩ := Option.ite_none_left_eq_some.mp hn
    exact ⟨by simpa using hd, (Option.some.inj hn).symm⟩
  constructor
  · refine fun h => System.Invariant.holds (I := HandledOnce) ⟨?_, ?_⟩ h
    · rintro _ ⟨ssl, rfl⟩
      exact handledOnce_of_not_destroyed (.init ⟨ssl, rfl⟩) rfl
    · intro c a c' hr ih ⟨hc, hn⟩
      cases a
      case destroy  =>
        obtain ⟨hd, rfl⟩ := destroyed hn
        exact (handledOnce_destroy_iff ih hd).mpr hc
      case handle a =>
        refine handledOnce_of_not_destroyed (hr.of_restrict.step hn) ?_
        obtain ⟨hd, hn⟩ := Option.ite_none_left_eq_some.mp hn
        obtain ⟨_, _, rfl⟩ := Option.map_eq_some_iff.mp hn
        simpa using hd
  · intro c c' h hn
    obtain ⟨hd, rfl⟩ := destroyed hn
    exact handledOnce_destroy_iff (handledOnce_of_not_destroyed h hd) hd

-- The handler of the only message has been called before the session is destroyed.
theorem handledOnce_iff_run : ∃ c : Lifetime, c.destroyed ∧ c.session.sending.accepted = [message] ∧ HandledOnce c := by
  have ⟨c, hr, hd, ha⟩ : ∃ c, ((system {}).restrict Drained).Reachable c ∧
      c.destroyed ∧ c.session.sending.accepted = [message] :=
    System.exec_reachable ⟨false, rfl⟩ <| show Option.any _ (System.exec _ _ _
      [.handle (.on_send message 8), .handle (.on_write2 0 none 5), .destroy]) by decide +kernel
  exact ⟨c, hd, ha, (handledOnce_iff {}).left hr⟩

-- The session is destroyed while its only message is being written.
theorem not_handledOnce : ∃ c, (system {}).Reachable c ∧ c.destroyed ∧ ¬HandledOnce c := by
  have ⟨c, hr, hd, hi, ha⟩ : ∃ c, ((system {}).restrict fun _ _ => True).Reachable c ∧
      c.destroyed ∧ c.session.sending.invoked = [] ∧ c.session.sending.accepted = [message] :=
    System.exec_reachable ⟨false, rfl⟩ <| show Option.any _ (System.exec _ _ _
      [.handle (.on_send message 8), .destroy]) by decide +kernel
  refine ⟨c, hr.of_restrict, hd, fun h => ?_⟩
  have := h.length_eq
  simp [pending, hd, hi, ha, handlers, message] at this

end Lifetime
end BeastNetworking.HttpSession
