import InterprocessMemPool.Networking.MultiClientReceiver.Theorems.Parse

namespace BeastNetworking.MultiClientReceiver

variable {str : Text} {hadError : Bool} {c : SenderCharacteristics} {r : Receiver} {f : Field UInt16}

theorem toNat_convert {n : ℕ} (hn : n < 2 ^ 64) :
    (Integer.convert (UInt64.ofNat n) : UInt16).toNat = n % 2 ^ 16 := by
  have h : (Integer.convert (UInt64.ofNat n) : UInt16) = (UInt64.ofNat n).toUInt16 := rfl
  rw [h, UInt64.toNat_toUInt16, UInt64.toNat_ofNat_of_lt' hn]

namespace Receiver

-- The topic and the port of the call of `ConnectToServer`, if there is one.
def connection (hadError : Bool) (c : SenderCharacteristics) (r : Receiver) : Option (Text × UInt16) :=
  let port_to_use := r.port_to_use c
  if hadError || port_to_use = 0 then none else
  if !r.permitLoopback && c.uniqueHandleID = r.uniqueInstanceID && r.uniqueInstanceID ≠ 0 then none else
  if (r.topicStates.lookup c.topic).isNone then none else
  some (c.topic, port_to_use)

theorem process_eq {address : String} {session : Session} : r.process address session hadError c =
    (r.connection hadError c).elim r fun (topic, port) =>
      r.ConnectToServer topic (address ++ ":" ++ toString port) session := by
  simp only [process, connection]
  repeat' split
  all_goals rfl

-- What comes of a datagram. If an exception is thrown, then there is no call.
def calls (str : Text) (r : Receiver) : Option (Text × UInt16) :=
  match SenderCharacteristics.Parse str with
  | .error _          => none
  | .ok (hadError, c) => r.connection hadError c

theorem processBroadcast_eq {address : String} {session : Session} {r' : Receiver}
    (h : r.ProcessBroadcast address session str = .ok r') : r' = (r.calls str).elim r fun (topic, port) =>
      r.ConnectToServer topic (address ++ ":" ++ toString port) session := by
  rw [ProcessBroadcast] at h
  cases hp : SenderCharacteristics.Parse str
  case error  => simp [hp, Except.map] at h
  case ok p   =>
    rw [hp] at h
    rw [← Except.ok.inj h, calls, hp]
    exact process_eq

-- The field for the mode of the receiver.
def portField (r : Receiver) : Field UInt16 :=
  if r.useSSL then Field.port_secure else Field.port_insecure

-- A call is for the port that the datagram has for the field.
structure Advertised (str : Text) (r : Receiver) : Prop where
  port : ∀ {topic port}, r.calls str = some (topic, port) →
    r.portField.number str = some port.toNat ∧ 1 ≤ port.toNat ∧ port.toNat ≤ 65535
  none : (∀ n ∈ r.portField.number str, n = 0 ∨ 65535 < n) → r.calls str = none

-- Whatever its ports, the datagram is not dropped: there is a topic, and a state for it, it is not from the
-- receiver's own instance, and no number is out of the range of `std::stoull`.
structure Heard (str : Text) (r : Receiver) : Prop where
  convertible : SenderCharacteristics.Convertible str
  topic       : ∃ topic, MultiClientReceiver.topic str = some topic ∧ (r.topicStates.lookup topic).isSome
  loopback    : r.permitLoopback ∨ r.uniqueInstanceID = 0 ∨ Field.uniqueHandleID.parse str ≠ .ok r.uniqueInstanceID

-- The number is a port, or it is 0 once it has been cut to 16 bits.
def PortFits (str : Text) (r : Receiver) : Prop :=
  ∃ n ∈ r.portField.number str, n ≤ 65535 ∨ n % 2 ^ 16 = 0

theorem portField_parse (h : SenderCharacteristics.Parse str = .ok (hadError, c)) :
    r.portField.parse str = .ok (r.port_to_use c) := by
  obtain ⟨h₁, h₂, _⟩ := SenderCharacteristics.Parse_eq_ok_iff.mp h
  unfold portField port_to_use
  split
  case isTrue  => exact h₂
  case isFalse => exact h₁

-- The loopback check, by the number that is parsed.
theorem loopback_iff (h : SenderCharacteristics.Parse str = .ok (hadError, c)) :
    (!r.permitLoopback && c.uniqueHandleID = r.uniqueInstanceID && r.uniqueInstanceID ≠ 0) = false ↔
    r.permitLoopback ∨ r.uniqueInstanceID = 0 ∨ Field.uniqueHandleID.parse str ≠ .ok r.uniqueInstanceID := by
  obtain ⟨_, _, h₃, _⟩ := SenderCharacteristics.Parse_eq_ok_iff.mp h
  rw [h₃]
  simp only [Bool.and_eq_false_iff, Bool.not_eq_false', decide_eq_false_iff_not, not_not, ne_eq, Except.ok.injEq]
  tauto

theorem calls_of_heard (h : r.Heard str) : ∃ topic port, r.portField.parse str = .ok port ∧
    r.calls str = if port = 0 then none else some (topic, port) := by
  obtain ⟨⟨hadError, c⟩, hp⟩ := SenderCharacteristics.parse_ok_iff.mpr h.convertible
  obtain ⟨_, _, _, _, _, ht, he⟩ := SenderCharacteristics.Parse_eq_ok_iff.mp hp
  obtain ⟨topic, hm, hs⟩ := h.topic
  have hl := (loopback_iff hp).mpr h.loopback
  simp only [hm, Option.getD_some, Option.isNone_some] at ht he
  refine ⟨topic, r.port_to_use c, portField_parse hp, ?_⟩
  have hn : (r.topicStates.lookup topic).isNone = false := by simpa using hs
  simp only [calls, hp, connection, he, ht, hl, hn, Bool.false_or, Bool.false_eq_true, if_false, decide_eq_true_eq]

theorem of_connection_ne_none (h : r.connection hadError c ≠ none) : hadError = false ∧
    (!r.permitLoopback && c.uniqueHandleID = r.uniqueInstanceID && r.uniqueInstanceID ≠ 0) = false ∧
    (r.topicStates.lookup c.topic).isSome := by
  simp only [connection, ne_eq, ite_eq_left_iff, not_forall, Bool.not_eq_true, Bool.or_eq_false_iff] at h
  obtain ⟨⟨he, _⟩, hl, hn, _⟩ := h
  exact ⟨he, hl, by simpa using hn⟩

theorem calls_of_not_heard (h : ¬r.Heard str) : r.calls str = none := by
  rw [calls]
  split
  case h_1 => rfl
  case h_2 hadError c hp =>
    obtain ⟨_, _, _, _, _, ht, he⟩ := SenderCharacteristics.Parse_eq_ok_iff.mp hp
    by_contra hne
    obtain ⟨hf, hl, hs⟩ := of_connection_ne_none hne
    rw [hf] at he
    obtain ⟨topic, hm⟩ := Option.isSome_iff_exists.mp (by simpa using he.symm)
    rw [hm, Option.getD_some] at ht
    exact h ⟨SenderCharacteristics.parse_ok_iff.mp ⟨_, hp⟩, ⟨topic, hm, ht ▸ hs⟩, (loopback_iff hp).mp hl⟩

theorem portField_default : r.portField.default = 65535 := by
  unfold portField
  split <;> rfl

theorem portField_cases {port : UInt16} (h : r.portField.parse str = .ok port) :
    r.portField.number str = none ∧ port = 65535 ∨
    ∃ n, r.portField.number str = some n ∧ port.toNat = n % 2 ^ 16 := by
  cases hn : r.portField.number str
  case none =>
    rw [Field.parse_none hn, portField_default] at h
    exact .inl ⟨rfl, (Except.ok.inj h).symm⟩
  case some n =>
    rw [Field.parse_some hn] at h
    split at h
    case isFalse     => cases h
    case isTrue hlt  => exact .inr ⟨n, rfl, by rw [← Except.ok.inj h, toNat_convert hlt]⟩

theorem advertised_of_calls_eq_none (h : r.calls str = none) : r.Advertised str := by
  constructor
  · intro _ _ hc
    cases h.symm.trans hc
  · exact fun _ => h

-- If there is no port, then 65535 is taken for it, and a number that is too large is cut to 16 bits.
theorem advertised_iff (str : Text) (r : Receiver) : r.Advertised str ↔ (r.Heard str → r.PortFits str) := by
  by_cases hh : r.Heard str
  case neg => exact iff_of_true (advertised_of_calls_eq_none (calls_of_not_heard hh)) fun h => absurd h hh
  case pos =>
    rw [imp_iff_right hh]
    obtain ⟨topic, port, hp, hc⟩ := calls_of_heard hh
    have hlt := port.toNat_lt
    constructor
    · intro ha
      obtain ⟨hn, rfl⟩ | ⟨n, hn, hport⟩ := portField_cases hp
      · cases (ha.none (by simp [hn])).symm.trans hc
      · refine ⟨n, hn, ?_⟩
        by_cases hz : port = 0
        case pos => exact .inr (hport.symm.trans (by rw [hz]; rfl))
        case neg =>
          rw [if_neg hz] at hc
          have hn' := (ha.port hc).left
          obtain rfl := Option.some.inj (hn.symm.trans hn')
          exact .inl (by omega)
    · rintro ⟨n, hn, hfit⟩
      obtain ⟨hn', _⟩ | ⟨n', hn', hport⟩ := portField_cases hp
      · cases hn.symm.trans hn'
      obtain rfl := Option.some.inj (hn'.symm.trans hn)
      constructor
      case port =>
        intro topic' port' hc'
        rw [hc, Option.ite_none_left_eq_some, Option.some.injEq, Prod.mk.injEq] at hc'
        obtain ⟨hz, _, rfl⟩ := hc'
        have hpos : port.toNat ≠ 0 := fun h => hz (UInt16.toNat_inj.mp h)
        have he : n' = port.toNat := by omega
        exact ⟨he ▸ hn', by omega, by omega⟩
      case none =>
        intro hall
        have hz : port = 0 := by
          have := hall n' hn'
          exact UInt16.toNat_inj.mp (hport.trans (by rw [UInt16.toNat_zero]; omega))
        rw [hc, if_pos hz]

-- There is no port in the text, and the connection is made to 65535.
theorem not_advertised : listening.calls "topic:t,".toList = some ("t".toList, 65535) ∧
    ¬listening.Advertised "topic:t,".toList := by
  have hc : listening.calls "topic:t,".toList = some ("t".toList, 65535) := rfl
  exact ⟨hc, fun h => by cases (h.none (by decide)).symm.trans hc⟩

end Receiver
end BeastNetworking.MultiClientReceiver
