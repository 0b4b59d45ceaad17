import InterprocessMemPool.Networking.MultiClientReceiver.Discovery

namespace BeastNetworking.MultiClientReceiver

variable {str : Text} {hadError : Bool} {c : SenderCharacteristics}

theorem stoull_of_digits (hne : str ≠ []) (hd : ∀ c ∈ str, c.isDigit) : stoull str =
    if Nat.ofDigitChars 10 str 0 < 2 ^ 64 then .ok (.ofNat (Nat.ofDigitChars 10 str 0))
    else .error .out_of_range := by
  have ht : str.takeWhile Char.isDigit = str := List.takeWhile_eq_self_iff.mpr hd
  rw [stoull, ht, if_neg hne]

namespace Field

variable {τ : Type} [Integer τ] {f : Field τ} {v : τ}

-- The number that a text has for a field.
def number (f : Field τ) (str : Text) : Option ℕ :=
  (f.search str).map (Nat.ofDigitChars 10 · 0)

def Convertible (f : Field τ) (str : Text) : Prop :=
  ∀ n ∈ f.number str, n < 2 ^ 64

def InRange (_ : Field τ) (n : ℕ) : Prop :=
  ∃ v : τ, Integer.value v = n

def default (f : Field τ) : τ :=
  Integer.convert f.otherwise

-- What becomes of a field: a number that its type has is its value, and otherwise there is an error or
-- the value is the default.
structure Handled (f : Field τ) (str : Text) (hadError : Bool) (v : τ) : Prop where
  value : ∀ n ∈ f.number str, f.InRange n → Integer.value v = n
  error : (∀ n ∈ f.number str, ¬f.InRange n) → hadError ∨ v = f.default

-- A number that is not in range must do no harm when it is converted.
def Fits (f : Field τ) (str : Text) (hadError : Bool) : Prop :=
  ∀ n ∈ f.number str, n < 2 ^ 64 ∧
    (f.InRange n ∨ hadError ∨ Integer.convert (UInt64.ofNat n) = f.default)

theorem parse_none (h : f.number str = none) : f.parse str = .ok f.default := by
  rw [parse, Option.map_eq_none_iff.mp h]
  rfl

theorem parse_some {n : ℕ} (h : f.number str = some n) : f.parse str =
    if n < 2 ^ 64 then .ok (Integer.convert (.ofNat n)) else .error .out_of_range := by
  obtain ⟨digits, hs, rfl⟩ := Option.map_eq_some_iff.mp h
  have hd := Search.found_of_search hs
  rw [parse, hs]
  simp only
  rw [stoull_of_digits hd.ne_nil hd.all]
  split <;> rfl

theorem parse_ok_iff : (∃ v, f.parse str = .ok v) ↔ f.Convertible str := by
  simp only [Convertible]
  cases h : f.number str
  case none => simp [parse_none h]
  case some n =>
    rw [parse_some h]
    by_cases hn : n < 2 ^ 64
    case pos => rw [if_pos hn]; simpa using hn
    case neg => rw [if_neg hn]; simpa using hn

theorem convert_of_inRange {n : ℕ} (hn : n < 2 ^ 64) (h : Integer.value v = n) :
    Integer.convert (UInt64.ofNat n) = v := by
  refine Integer.convert_eq ?_
  rw [h, UInt64.toNat_ofNat_of_lt' hn]

theorem parse_of_number {n : ℕ} (h : f.number str = some n) (hn : n < 2 ^ 64)
    (hv : Integer.value v = n) : f.parse str = .ok v := by
  rw [parse_some h, if_pos hn, convert_of_inRange hn hv]

theorem handled_some {n : ℕ} (h : f.number str = some n) : f.Handled str hadError v ↔
    (f.InRange n → Integer.value v = n) ∧ (f.InRange n ∨ hadError ∨ v = f.default) := by
  constructor
  · intro ⟨hv, he⟩
    simp only [h, Option.mem_def, Option.some.injEq, forall_eq'] at hv he
    exact ⟨hv, or_iff_not_imp_left.mpr he⟩
  · intro ⟨hv, he⟩
    constructor <;> simp only [h, Option.mem_def, Option.some.injEq, forall_eq']
    · exact hv
    · exact he.resolve_left

theorem handled_iff :
    (∃ v, f.parse str = .ok v ∧ f.Handled str hadError v) ↔ f.Fits str hadError := by
  cases h : f.number str
  case none => refine iff_of_true ⟨_, parse_none h, ?_, fun _ => .inr rfl⟩ ?_ <;> simp [Fits, h]
  case some n =>
    simp only [parse_some h, handled_some h, Fits, h, Option.mem_def, Option.some.injEq, forall_eq']
    by_cases hn : n < 2 ^ 64
    case neg => simp only [hn, if_false, reduceCtorEq, false_and, exists_false]
    case pos =>
      simp only [hn, if_true, Except.ok.injEq, exists_eq_left', true_and, and_iff_right_iff_imp]
      intro _ ⟨v, hv⟩
      rwa [convert_of_inRange hn hv]

end Field

namespace SenderCharacteristics

theorem Parse_eq_ok_iff : Parse str = .ok (hadError, c) ↔
    Field.port_insecure.parse str = .ok c.port_insecure ∧
    Field.port_secure.parse str = .ok c.port_secure ∧
    Field.uniqueHandleID.parse str = .ok c.uniqueHandleID ∧
    Field.endianness.parse str = .ok c.endianness ∧
    Field.time.parse str = .ok c.time ∧
    c.topic = (MultiClientReceiver.topic str).getD [] ∧
    hadError = (MultiClientReceiver.topic str).isNone := by
  obtain ⟨⟩ := c
  rw [Parse]
  cases Field.port_insecure.parse str <;> cases Field.port_secure.parse str <;>
    cases Field.uniqueHandleID.parse str <;> cases Field.endianness.parse str <;>
      cases Field.time.parse str <;> simp [bind, Except.bind, pure, Except.pure]
  tauto

-- A field that is malformed or out of range is reported, or it has its default.
structure Handled (str : Text) (hadError : Bool) (c : SenderCharacteristics) : Prop where
  topic          : MultiClientReceiver.topic str = none → hadError
  port_insecure  : Field.port_insecure.Handled str hadError c.port_insecure
  port_secure    : Field.port_secure.Handled str hadError c.port_secure
  uniqueHandleID : Field.uniqueHandleID.Handled str hadError c.uniqueHandleID
  endianness     : Field.endianness.Handled str hadError c.endianness
  time           : Field.time.Handled str hadError c.time

-- The only error that is reported is that there is no topic.
structure Fits (str : Text) : Prop where
  port_insecure  : Field.port_insecure.Fits str (MultiClientReceiver.topic str).isNone
  port_secure    : Field.port_secure.Fits str (MultiClientReceiver.topic str).isNone
  uniqueHandleID : Field.uniqueHandleID.Fits str (MultiClientReceiver.topic str).isNone
  endianness     : Field.endianness.Fits str (MultiClientReceiver.topic str).isNone
  time           : Field.time.Fits str (MultiClientReceiver.topic str).isNone

structure Convertible (str : Text) : Prop where
  port_insecure  : Field.port_insecure.Convertible str
  port_secure    : Field.port_secure.Convertible str
  uniqueHandleID : Field.uniqueHandleID.Convertible str
  endianness     : Field.endianness.Convertible str
  time           : Field.time.Convertible str

theorem Fits.convertible (h : Fits str) : Convertible str where
  port_insecure n hn  := (h.port_insecure n hn).left
  port_secure n hn    := (h.port_secure n hn).left
  uniqueHandleID n hn := (h.uniqueHandleID n hn).left
  endianness n hn     := (h.endianness n hn).left
  time n hn           := (h.time n hn).left

theorem parse_handled_iff :
    (∃ hadError c, Parse str = .ok (hadError, c) ∧ Handled str hadError c) ↔ Fits str := by
  constructor
  · intro ⟨hadError, c, hp, hh⟩
    obtain ⟨h₁, h₂, h₃, h₄, h₅, _, rfl⟩ := Parse_eq_ok_iff.mp hp
    constructor
    · exact Field.handled_iff.mp ⟨_, h₁, hh.port_insecure⟩
    · exact Field.handled_iff.mp ⟨_, h₂, hh.port_secure⟩
    · exact Field.handled_iff.mp ⟨_, h₃, hh.uniqueHandleID⟩
    · exact Field.handled_iff.mp ⟨_, h₄, hh.endianness⟩
    · exact Field.handled_iff.mp ⟨_, h₅, hh.time⟩
  · intro h
    obtain ⟨_, h₁, hh₁⟩ := Field.handled_iff.mpr h.port_insecure
    obtain ⟨_, h₂, hh₂⟩ := Field.handled_iff.mpr h.port_secure
    obtain ⟨_, h₃, hh₃⟩ := Field.handled_iff.mpr h.uniqueHandleID
    obtain ⟨_, h₄, hh₄⟩ := Field.handled_iff.mpr h.endianness
    obtain ⟨_, h₅, hh₅⟩ := Field.handled_iff.mpr h.time
    refine ⟨_, ⟨_, _, _, _, _, _⟩, Parse_eq_ok_iff.mpr ⟨h₁, h₂, h₃, h₄, h₅, rfl, rfl⟩, ?_⟩
    exact ⟨Option.isNone_iff_eq_none.mpr, hh₁, hh₂, hh₃, hh₄, hh₅⟩

theorem parse_ok_iff : (∃ p, Parse str = .ok p) ↔ Convertible str := by
  constructor
  · intro ⟨⟨hadError, c⟩, hp⟩
    obtain ⟨h₁, h₂, h₃, h₄, h₅, _⟩ := Parse_eq_ok_iff.mp hp
    constructor
    · exact Field.parse_ok_iff.mp ⟨_, h₁⟩
    · exact Field.parse_ok_iff.mp ⟨_, h₂⟩
    · exact Field.parse_ok_iff.mp ⟨_, h₃⟩
    · exact Field.parse_ok_iff.mp ⟨_, h₄⟩
    · exact Field.parse_ok_iff.mp ⟨_, h₅⟩
  · intro h
    obtain ⟨_, h₁⟩ := Field.parse_ok_iff.mpr h.port_insecure
    obtain ⟨_, h₂⟩ := Field.parse_ok_iff.mpr h.port_secure
    obtain ⟨_, h₃⟩ := Field.parse_ok_iff.mpr h.uniqueHandleID
    obtain ⟨_, h₄⟩ := Field.parse_ok_iff.mpr h.endianness
    obtain ⟨_, h₅⟩ := Field.parse_ok_iff.mpr h.time
    exact ⟨(_, ⟨_, _, _, _, _, _⟩), Parse_eq_ok_iff.mpr ⟨h₁, h₂, h₃, h₄, h₅, rfl, rfl⟩⟩

end SenderCharacteristics

namespace Receiver

open SenderCharacteristics

variable {address : String} {session : Session} {r : Receiver}

theorem processBroadcast_ok_iff :
    (∃ r', r.ProcessBroadcast address session str = .ok r') ↔ Convertible str := by
  rw [← SenderCharacteristics.parse_ok_iff, ProcessBroadcast]
  cases Parse str <;> simp [Except.map]

-- Whatever the receiver, a text is dealt with without an exception just if its numbers are at most
-- 2⁶⁴ - 1. For the rest of what is asked, they must also be in the range of their types, unless the
-- conversion happens to give the default.
theorem processBroadcast_returns (str : Text) :
    (((∃ hadError c, Parse str = .ok (hadError, c) ∧ Handled str hadError c) ∧
      ∀ address session, ∀ r : Receiver, ∃ r', r.ProcessBroadcast address session str = .ok r') ↔
        Fits str) ∧
    (∀ address session, ∀ r : Receiver,
      (∃ r', r.ProcessBroadcast address session str = .ok r') ↔ Convertible str) := by
  refine ⟨?_, fun _ _ _ => processBroadcast_ok_iff⟩
  rw [parse_handled_iff, and_iff_left_iff_imp]
  exact fun h _ _ _ => processBroadcast_ok_iff.mpr h.convertible

def listening : Receiver where
  useSSL           := true
  permitLoopback   := true
  uniqueInstanceID := 0
  topicStates      := [("t".toList, true)]

-- The second text is accepted, with 65537 taken for the port 1.
theorem not_processBroadcast_returns :
    listening.ProcessBroadcast "10.0.0.7" 0 "topic:t,port_insecure:18446744073709551616,".toList =
      .error .out_of_range ∧
    (Parse "topic:t,port_secure:65537,".toList).map (fun p => (p.1, p.2.port_secure)) =
      .ok (false, 1) :=
  ⟨rfl, rfl⟩

end Receiver
end BeastNetworking.MultiClientReceiver
