import InterprocessMemPool.MempoolIPC.Router.Basic

namespace RouterIPC

variable {α : Type*} {r r' : RouterIPC α} {c : Config α} {l l' : Call α} {x : Choice α} {k i : ℕ}

section

variable {f : PipeIPC.Counted α → PipeIPC.Counted α}

@[simp]
theorem modify_mutex : (r.modify k f).mutex = r.mutex :=
  rfl

@[simp]
theorem modify_pipes : (r.modify k f).pipes = r.pipes :=
  rfl

@[simp]
theorem modify_length : (r.modify k f).segment.length = r.segment.length := by
  simp [modify]

end

-- The state of the router aside from what goes on in its pipes.
structure Same (r r' : RouterIPC α) : Prop where
  mutex  : r'.mutex = r.mutex
  pipes  : r'.pipes = r.pipes
  length : r'.segment.length = r.segment.length

theorem Same.refl : Same r r :=
  ⟨rfl, rfl, rfl⟩

theorem Same.modify {f : PipeIPC.Counted α → PipeIPC.Counted α} : Same r (r.modify k f) :=
  ⟨rfl, rfl, modify_length⟩

theorem Same.release : Same r (r.release k) :=
  .modify

theorem lock_eq_none : r.lock k = none ↔ r.alive k = false := by
  simp [lock]

theorem alive_of_lock (h : r.lock k = some r') : r.alive k = true :=
  (Option.ite_none_right_eq_some.mp h).left

theorem Same.lock (h : r.lock k = some r') : Same r r' := by
  simp only [RouterIPC.lock, Option.ite_none_right_eq_some, Option.some.injEq] at h
  exact h.right ▸ .modify

theorem through_eq_some {β γ : Type*} {b : β} {g : γ} {f : β → γ}
    {step : PipeIPC α → β → Option (PipeIPC α × β)} (h : r.through k b step f = some (r', g)) :
    ∃ e p b', r.segment[k]? = some e ∧ step e.pipe b = some (p, b') ∧
      r' = r.modify k (fun e => { e with pipe := p }) ∧ g = f b' := by
  simp only [through, Option.bind_eq_some_iff, Option.map_eq_some_iff, Prod.mk.injEq] at h
  obtain ⟨e, he, ⟨p, b'⟩, hs, hr, hg⟩ := h
  exact ⟨e, p, b', he, hs, hr.symm, hg.symm⟩

def Call.holds : Call α → Bool
  | .send s         =>
    match s.pc with
    | .sweeping _ _ | .sending _ _ _ _ => true
    | _                                => false
  | .receiver _     => false
  | .shutdown s     =>
    match s with
    | .sweeping _ | .shuttingDown _ _ _ => true
    | _                                 => false
  | .numReceivers s =>
    match s with
    | .sweeping _ _ | .counting _ _ _ => true
    | _                               => false

-- Everything that a step can do to a router, aside from what goes on in its pipes.
inductive Effect (r : RouterIPC α) (l : Call α) (r' : RouterIPC α) (l' : Call α) : Prop
  | quiet (s : Same r r') (h : l'.holds = l.holds) (hk : ∀ k, l' ≠ .receiver (.pushing k))
  | acquire (hm : r.mutex = false) (h : l.holds = false) (h' : l'.holds)
    (hr : r' = { r with mutex := true })
  | letGo (h : l.holds) (h' : l'.holds = false) (hk : ∀ k, l' ≠ .receiver (.pushing k))
    (hr : r' = { r with mutex := false })
  | swapPop (i : ℕ) (hi : i < r.pipes.length) (h : l.holds) (h' : l'.holds)
    (hr : r' = { r with pipes := RouterIPC.swapPop r.pipes i })
  | construct (capacity_in : SizeT) (h : l.holds = false)
    (hr : r' = { r with segment := r.segment ++ [⟨.new capacity_in, 1⟩] })
    (hl : l' = .receiver (.pushing r.segment.length))
  | push (k : ℕ) (hm : r.mutex = false) (hr : r' = { r with pipes := r.pipes ++ [k] })
    (hl : l = .receiver (.pushing k)) (hl' : l' = .receiver (.holding k))

theorem Send.effect {s s' : Send α} {b : Bool} (h : s.step b r = some (r', s')) :
    Effect r (.send s) r' (.send s') := by
  obtain ⟨ptr, mode, t, pc⟩ := s
  cases pc <;> simp only [step, reduceCtorEq] at h
  case entered =>
    simp only [Option.ite_none_left_eq_some, Option.some.injEq, Prod.mk.injEq] at h
    obtain ⟨hm, rfl, rfl⟩ := h
    exact .acquire (by simpa using hm) rfl rfl rfl
  case sweeping i n =>
    split at h
    case isFalse =>
      obtain ⟨rfl, rfl⟩ := Prod.mk.inj (Option.some.inj h)
      exact .letGo rfl rfl (by simp) rfl
    case isTrue =>
      obtain ⟨k, hk, h⟩ := Option.map_eq_some_iff.mp h
      have ⟨hi, _⟩ := List.getElem?_eq_some_iff.mp hk
      split at h <;> obtain ⟨rfl, rfl⟩ := Prod.mk.inj h
      case h_1 => exact .swapPop i hi rfl rfl rfl
      case h_2 => exact .quiet (.lock ‹r.lock k = _›) rfl (by simp)
  case sending i n k c =>
    split at h
    case h_1 =>
      obtain ⟨rfl, rfl⟩ := Prod.mk.inj (Option.some.inj h)
      exact .quiet .release rfl (by simp)
    case h_2 =>
      obtain ⟨_, _, _, _, _, rfl, rfl⟩ := through_eq_some h
      exact .quiet .modify rfl (by simp)

theorem Receiver.effect {s s' : Receiver α} (h : s.step x r = some (r', s')) :
    Effect r (.receiver s) r' (.receiver s') := by
  cases s <;> simp only [step, reduceCtorEq] at h
  case registering =>
    split at h <;> obtain ⟨rfl, rfl⟩ := Prod.mk.inj (Option.some.inj h)
    case isTrue  => exact .quiet .refl rfl (by simp)
    case isFalse => exact .construct _ rfl rfl rfl
  case pushing k =>
    simp only [Option.ite_none_left_eq_some, Bool.not_eq_true] at h
    obtain ⟨hm, h⟩ := h
    split at h <;> obtain ⟨rfl, rfl⟩ := Prod.mk.inj (Option.some.inj h)
    case isTrue  => exact .quiet .release rfl (by simp)
    case isFalse => exact .push k hm rfl rfl rfl
  case copying k =>
    have ⟨_, hl, h⟩ := Option.map_eq_some_iff.mp h
    obtain ⟨rfl, rfl⟩ := Prod.mk.inj h
    exact .quiet (.lock hl) rfl (by simp)
  case holding k =>
    split at h
    case h_1 =>
      obtain ⟨rfl, rfl⟩ := Prod.mk.inj (Option.some.inj h)
      exact .quiet .release rfl (by simp)
    case h_2 =>
      simp only [Option.ite_none_right_eq_some, Option.some.injEq, Prod.mk.injEq] at h
      obtain ⟨_, rfl, rfl⟩ := h
      exact .quiet .refl rfl (by simp)
  case calling k c =>
    split at h
    case h_1 =>
      obtain ⟨rfl, rfl⟩ := Prod.mk.inj (Option.some.inj h)
      exact .quiet .refl rfl (by simp)
    case h_2 =>
      obtain ⟨_, _, _, _, _, rfl, rfl⟩ := through_eq_some h
      exact .quiet .modify rfl (by simp)

theorem Shutdown.effect {s s' : Shutdown} (h : s.step r = some (r', s')) :
    Effect r (.shutdown s) r' (.shutdown s') := by
  cases s <;> simp only [step, reduceCtorEq] at h
  case entered =>
    simp only [Option.ite_none_left_eq_some, Option.some.injEq, Prod.mk.injEq] at h
    obtain ⟨hm, rfl, rfl⟩ := h
    exact .acquire (by simpa using hm) rfl rfl rfl
  case sweeping i =>
    split at h
    case h_1 =>
      obtain ⟨rfl, rfl⟩ := Prod.mk.inj (Option.some.inj h)
      exact .letGo rfl rfl (by simp) rfl
    case h_2 =>
      split at h <;> obtain ⟨rfl, rfl⟩ := Prod.mk.inj (Option.some.inj h)
      case h_1    => exact .quiet .refl rfl (by simp)
      case h_2 hl => exact .quiet (.lock hl) rfl (by simp)
  case shuttingDown i k c =>
    split at h
    case h_1 =>
      obtain ⟨rfl, rfl⟩ := Prod.mk.inj (Option.some.inj h)
      exact .quiet .release rfl (by simp)
    case h_2 =>
      obtain ⟨_, _, _, _, _, rfl, rfl⟩ := through_eq_some h
      exact .quiet .modify rfl (by simp)

theorem NumReceivers.effect {s s' : NumReceivers} (h : s.step r = some (r', s')) :
    Effect r (.numReceivers s) r' (.numReceivers s') := by
  cases s <;> simp only [step, reduceCtorEq] at h
  case entered =>
    simp only [Option.ite_none_left_eq_some, Option.some.injEq, Prod.mk.injEq] at h
    obtain ⟨hm, rfl, rfl⟩ := h
    exact .acquire (by simpa using hm) rfl rfl rfl
  case sweeping i n =>
    split at h
    case h_1 =>
      obtain ⟨rfl, rfl⟩ := Prod.mk.inj (Option.some.inj h)
      exact .letGo rfl rfl (by simp) rfl
    case h_2 =>
      split at h <;> obtain ⟨rfl, rfl⟩ := Prod.mk.inj (Option.some.inj h)
      case h_1    => exact .quiet .refl rfl (by simp)
      case h_2 hl => exact .quiet (.lock hl) rfl (by simp)
  case counting =>
    obtain ⟨rfl, rfl⟩ := Prod.mk.inj (Option.some.inj h)
    exact .quiet .release rfl (by simp)

-- A step of a call on a router is one of the member function that is called.
inductive Call.Steps (x : Choice α) (r : RouterIPC α) : Call α → RouterIPC α → Call α → Prop
  | send {s s' r'} (h : Send.step x.expired r s = some (r', s')) : Steps x r (.send s) r' (.send s')
  | receiver {s s' r'} (h : Receiver.step x r s = some (r', s')) : Steps x r (.receiver s) r' (.receiver s')
  | shutdown {s s' r'} (h : Shutdown.step r s = some (r', s')) : Steps x r (.shutdown s) r' (.shutdown s')
  | numReceivers {s s' r'} (h : NumReceivers.step r s = some (r', s')) :
    Steps x r (.numReceivers s) r' (.numReceivers s')

theorem Call.steps (h : (program α).step x r l = some (r', l')) : Call.Steps x r l r' l' := by
  cases l <;> simp only [program, step] at h
  all_goals
    obtain ⟨⟨_, _⟩, hs, h⟩ := Option.map_eq_some_iff.mp h
    obtain ⟨rfl, rfl⟩ := Prod.mk.inj h
  case send         => exact .send hs
  case receiver     => exact .receiver hs
  case shutdown     => exact .shutdown hs
  case numReceivers => exact .numReceivers hs

theorem effect (h : (program α).step x r l = some (r', l')) : Effect r l r' l' := by
  cases Call.steps h
  case send hs         => exact Send.effect hs
  case receiver hs     => exact Receiver.effect hs
  case shutdown hs     => exact Shutdown.effect hs
  case numReceivers hs => exact NumReceivers.effect hs

theorem Call.holds_of_starts (h : l.starts) : l.holds = false := by
  cases l <;> simp only [starts] at h
  case send s         => cases hs : s.pc <;> simp_all [holds]
  case receiver       => rfl
  case shutdown s     => cases s <;> simp_all [holds]
  case numReceivers s => cases s <;> simp_all [holds]

def mutexProtocol (α : Type*) : (program α).Mutex where
  locked := mutex
  holds  := Call.holds
  starts := Call.holds_of_starts
  step h := by
    cases effect h
    case quiet s hh _           => exact .inr <| .inr ⟨s.mutex, hh⟩
    case acquire hm hh hh' hr   => exact .inl ⟨hm, hh, hr ▸ rfl, hh'⟩
    case letGo hh hh' _ hr      => exact .inr <| .inl ⟨hh, hh', hr ▸ rfl⟩
    case swapPop hh hh' hr      => exact .inr <| .inr ⟨hr ▸ rfl, hh'.trans hh.symm⟩
    case construct hh hr hl     => exact .inr <| .inr ⟨hr ▸ rfl, hl ▸ hh.symm⟩
    case push hr hl hl'         => exact .inr <| .inr ⟨hr ▸ rfl, hl ▸ hl' ▸ rfl⟩

end RouterIPC
