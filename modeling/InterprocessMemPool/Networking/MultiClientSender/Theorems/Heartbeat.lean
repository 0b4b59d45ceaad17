import InterprocessMemPool.Networking.MultiClientSender.Basic
import InterprocessMemPool.Networking.MultiClientReceiver.Theorems.Parse
import InterprocessMemPool.Text.Fields

namespace BeastNetworking.MultiClientSender

open MultiClientReceiver Search

variable {s : MultiClientSender} {now : Int64} {n : ℕ}

theorem print_nat : print n = Nat.toDigits 10 n :=
  Nat.toList_repr

theorem isDigit_of_mem_print : ∀ c ∈ print n, c.isDigit := by
  rw [print_nat]
  exact fun _ => Nat.isDigit_of_mem_toDigits (by decide) (by decide)

theorem print_ne_nil : print n ≠ [] :=
  print_nat ▸ Nat.toDigits_ne_nil

theorem colon_not_mem_print : ':' ∉ print n :=
  fun h => absurd (isDigit_of_mem_print _ h) (by decide)

def names : List Text :=
  ["port_insecure".toList, "port_secure".toList, "id".toList, "endian".toList, "system_time".toList]

-- The fields of the message behind the topic.
def numbers (time : ℕ) (s : MultiClientSender) : List (Text × Text) := [
  ("port_insecure".toList, print s.boundServerPort_insecure.toNat),
  ("port_secure".toList, print s.boundServerPort_secure.toNat),
  ("id".toList, print s.uniqueInstanceID.toNat),
  ("endian".toList, print (1 : UInt16).toNat),
  ("system_time".toList, print time)]

theorem map_fst_numbers : (s.numbers n).map Prod.fst = names :=
  rfl

theorem clean_names : ∀ name ∈ names, ',' ∉ name ∧ ':' ∉ name := by
  decide

theorem mem_names {field : Text × Text} (h : field ∈ s.numbers n) : field.1 ∈ names :=
  map_fst_numbers ▸ List.mem_map_of_mem h

theorem eq_print_of_mem_numbers {field : Text × Text} (h : field ∈ s.numbers n) :
    ∃ m : ℕ, field.2 = print m := by
  simp only [numbers, List.mem_cons, List.not_mem_nil, or_false] at h
  obtain rfl | rfl | rfl | rfl | rfl := h
  all_goals exact ⟨_, rfl⟩

theorem clean_numbers {field : Text × Text} (h : field ∈ s.numbers n) : Clean ':' field where
  name  := (clean_names _ (mem_names h)).right
  value := by
    obtain ⟨m, hm⟩ := eq_print_of_mem_numbers h
    exact hm ▸ colon_not_mem_print

section Numbers

variable {τ : Type} {f : MultiClientReceiver.Field τ}

theorem number_cons {field : Text × Text} {fields : List (Text × Text)} (hk : ',' ∉ f.key) :
    f.number (pieces ':' ',' (field :: fields)) =
      (f.number (piece ':' ',' field)).or (f.number (pieces ':' ',' fields)) := by
  simp only [Field.number, Field.search]
  rw [search_pieces_cons hk (by decide), Option.map_or]

-- A name that is not the end of one in front of it is found in its own place.
theorem number_numbers {name : Text} {k m : ℕ} (hk : f.key = name ++ [':'])
    (hi : (s.numbers n)[k]? = some (name, print m)) (h : ∀ name' ∈ names.take k, ¬name <:+ name') :
    f.number (pieces ':' ',' (s.numbers n)) = some m := by
  obtain ⟨hl, he⟩ := List.getElem?_eq_some_iff.mp hi
  obtain ⟨hc, hn⟩ := clean_names name (mem_names (List.mem_of_getElem? hi))
  have hs : ∀ field ∈ (s.numbers n).take k, ¬name <:+ field.1 := fun field hf =>
    h field.1 (by rw [← map_fst_numbers, ← List.map_take]; exact List.mem_map_of_mem hf)
  have hf : ∀ field ∈ (s.numbers n).take k, Clean ':' field :=
    fun _ hf => clean_numbers (List.mem_of_mem_take hf)
  rw [← List.take_append_drop k (s.numbers n), List.drop_eq_getElem_cons hl, he, Field.number,
    Field.search, hk, search_pieces (by decide) (by decide) hc hn hf hs print_ne_nil
      isDigit_of_mem_print, Option.map_some, print_nat, Nat.ofDigitChars_ten_toDigits]

end Numbers

-- The numbers that a text has are the ones of the sender.
structure Announces (time : ℕ) (s : MultiClientSender) (str : Text) : Prop where
  port_insecure  : Field.port_insecure.number str = some s.boundServerPort_insecure.toNat
  port_secure    : Field.port_secure.number str = some s.boundServerPort_secure.toNat
  uniqueHandleID : Field.uniqueHandleID.number str = some s.uniqueInstanceID.toNat
  endianness     : Field.endianness.number str = some 1
  time           : Field.time.number str = some time

theorem announces_numbers : Announces n s (pieces ':' ',' (s.numbers n)) where
  port_insecure  := number_numbers (k := 0) rfl rfl (by decide)
  port_secure    := number_numbers (k := 1) rfl rfl (by decide)
  uniqueHandleID := number_numbers (k := 2) rfl rfl (by decide)
  endianness     := number_numbers (k := 3) rfl rfl (by decide)
  time           := number_numbers (k := 4) rfl rfl (by decide)

-- What a message says of the topic.
def announcement (s : MultiClientSender) : Text :=
  piece ':' ',' ("topic".toList, s.topic)

-- `broadcastMsgCreator` as a list of fields.
def message (time : ℕ) (s : MultiClientSender) : Text :=
  pieces ':' ',' (("topic".toList, s.topic) :: s.numbers time)

theorem broadcastMsgCreator_eq (h : now.toInt = n) : s.broadcastMsgCreator now = s.message n := by
  have h₀ : "topic:".toList = "topic".toList ++ [':'] := rfl
  have h₁ : ",port_insecure:".toList = ',' :: ("port_insecure".toList ++ [':']) := rfl
  have h₂ : ",port_secure:".toList = ',' :: ("port_secure".toList ++ [':']) := rfl
  have h₃ : ",id:".toList = ',' :: ("id".toList ++ [':']) := rfl
  have h₄ : ",endian:".toList = ',' :: ("endian".toList ++ [':']) := rfl
  have h₅ : ",system_time:".toList = ',' :: ("system_time".toList ++ [':']) := rfl
  have h₆ : ",".toList = [','] := rfl
  unfold broadcastMsgCreator message
  simp only [numbers, h, h₀, h₁, h₂, h₃, h₄, h₅, h₆, pieces, piece, List.flatMap_cons,
    List.flatMap_nil, List.append_assoc, List.cons_append, List.nil_append]

def keys : List Text :=
  names.map (· ++ [':'])

section Message

variable {τ : Type} {f : MultiClientReceiver.Field τ} {m : ℕ}

theorem number_message_eq_or (hk : f.key ∈ keys) : f.number (s.message n) =
    (f.number s.announcement).or (f.number (pieces ':' ',' (s.numbers n))) := by
  have hs : ∀ key ∈ keys, ',' ∉ key := by decide
  exact number_cons (hs _ hk)

theorem number_announcement (hk : f.key ∈ keys) (h : ':' ∉ s.topic) :
    f.number s.announcement = none := by
  obtain ⟨name, hm, hk⟩ := List.mem_map.mp hk
  have hs : ∀ name ∈ names, ¬name <:+ "topic".toList := by decide
  have ht : ':' ∉ "topic".toList := by decide
  have hr : ':' ∉ s.topic ++ [','] := by simpa using h
  rw [Field.number, Field.search, ← hk, Option.map_eq_none_iff]
  exact search_eq_none_of_not_suffix (hs name hm) (clean_names name hm).right ht hr (by decide)

theorem number_message (hk : f.key ∈ keys) (h : ':' ∉ s.topic) :
    f.number (s.message n) = f.number (pieces ':' ',' (s.numbers n)) := by
  rw [number_message_eq_or hk, number_announcement hk h, Option.none_or]

theorem convertible_message [Integer τ] (hk : f.key ∈ keys)
    (h : f.number (pieces ':' ',' (s.numbers n)) = some m) (hm : m < 2 ^ 64) :
    f.Convertible (s.message n) ↔ f.Convertible s.announcement := by
  rw [Field.Convertible, number_message_eq_or hk, h, Field.Convertible]
  cases f.number s.announcement
  case none   => simpa using hm
  case some k => simp

end Message

theorem announces_message (h : ':' ∉ s.topic) : Announces n s (s.message n) where
  port_insecure  := (number_message (by decide) h).trans announces_numbers.port_insecure
  port_secure    := (number_message (by decide) h).trans announces_numbers.port_secure
  uniqueHandleID := (number_message (by decide) h).trans announces_numbers.uniqueHandleID
  endianness     := (number_message (by decide) h).trans announces_numbers.endianness
  time           := (number_message (by decide) h).trans announces_numbers.time

theorem convertible_message_iff (hn : n < 2 ^ 64) :
    SenderCharacteristics.Convertible (s.message n) ↔
      SenderCharacteristics.Convertible s.announcement := by
  have ⟨h₁, h₂, h₃, h₄, h₅⟩ := announces_numbers (n := n) (s := s)
  have hp₁ := s.boundServerPort_insecure.toNat_lt.trans (show 2 ^ 16 < 2 ^ 64 by decide)
  have hp₂ := s.boundServerPort_secure.toNat_lt.trans (show 2 ^ 16 < 2 ^ 64 by decide)
  have hi := s.uniqueInstanceID.toNat_lt
  constructor
  · intro h
    constructor
    · exact (convertible_message (by decide) h₁ hp₁).mp h.port_insecure
    · exact (convertible_message (by decide) h₂ hp₂).mp h.port_secure
    · exact (convertible_message (by decide) h₃ hi).mp h.uniqueHandleID
    · exact (convertible_message (by decide) h₄ (by decide)).mp h.endianness
    · exact (convertible_message (by decide) h₅ hn).mp h.time
  · intro h
    constructor
    · exact (convertible_message (by decide) h₁ hp₁).mpr h.port_insecure
    · exact (convertible_message (by decide) h₂ hp₂).mpr h.port_secure
    · exact (convertible_message (by decide) h₃ hi).mpr h.uniqueHandleID
    · exact (convertible_message (by decide) h₄ (by decide)).mpr h.endianness
    · exact (convertible_message (by decide) h₅ hn).mpr h.time

-- What a sender announces.
def characteristics (now : Int64) (s : MultiClientSender) : SenderCharacteristics where
  topic          := s.topic
  port_insecure  := s.boundServerPort_insecure
  port_secure    := s.boundServerPort_secure
  uniqueHandleID := s.uniqueInstanceID
  endianness     := 1
  time           := now

theorem Announces.parse {str : Text} (h : Announces n s str) (hn : now.toInt = n)
    (ht : MultiClientReceiver.topic str = some s.topic) :
    SenderCharacteristics.Parse str = .ok (false, s.characteristics now) := by
  have hlt : n < 2 ^ 64 := by
    have := now.toInt_lt
    omega
  refine SenderCharacteristics.Parse_eq_ok_iff.mpr ⟨?_, ?_, ?_, ?_, ?_, ?_, ?_⟩
  · exact Field.parse_of_number h.port_insecure
      (s.boundServerPort_insecure.toNat_lt.trans (by decide)) rfl
  · exact Field.parse_of_number h.port_secure
      (s.boundServerPort_secure.toNat_lt.trans (by decide)) rfl
  · exact Field.parse_of_number h.uniqueHandleID s.uniqueInstanceID.toNat_lt rfl
  · exact Field.parse_of_number h.endianness (by decide) rfl
  · exact Field.parse_of_number h.time hlt hn
  · simp [ht, characteristics]
  · simp [ht]

def Word (str : Text) : Prop :=
  str ≠ [] ∧ ∀ c ∈ str, isWord c

instance : DecidablePred Word :=
  fun str => decidable_of_iff (str ≠ [] ∧ str.all isWord) (by simp [Word])

theorem Word.colon_not_mem {str : Text} (h : Word str) : ':' ∉ str :=
  fun hc => absurd (h.right _ hc) (by decide)

theorem topic_announcement (h : Word s.topic) :
    MultiClientReceiver.topic s.announcement = some s.topic :=
  search_key "topic:".toList h.left h.right (by decide)

theorem topic_message :
    MultiClientReceiver.topic (s.message n) = MultiClientReceiver.topic s.announcement := by
  have hs : ∀ name ∈ names, ¬"topic".toList <:+ name := by decide
  have hn : Search.search ("topic".toList ++ [':']) isWord ',' (pieces ':' ',' (s.numbers n)) = none :=
    search_pieces_eq_none (by decide) (by decide) (by decide) (by decide) (fun _ => clean_numbers)
      (fun _ hf => hs _ (mem_names hf))
  have hc : ',' ∉ "topic".toList ++ [':'] := by decide
  exact (search_pieces_cons hc (by decide)).trans (by rw [hn, Option.or_none]; rfl)

theorem time_lt (h : now.toInt = n) : n < 2 ^ 64 := by
  have := now.toInt_lt
  omega

-- The message of a topic of word characters is understood as it is meant.
theorem parse_broadcastMsgCreator (ht : Word s.topic) (h : 0 ≤ now) :
    SenderCharacteristics.Parse (s.broadcastMsgCreator now) = .ok (false, s.characteristics now) := by
  obtain ⟨n, hn⟩ := Int.eq_ofNat_of_zero_le (Int64.le_iff_toInt_le.mp h)
  rw [broadcastMsgCreator_eq hn]
  refine (announces_message ht.colon_not_mem).parse hn ?_
  rw [topic_message, topic_announcement ht]

def idle : MultiClientSender where
  topic                    := "id".toList
  boundServerPort_insecure := 8080
  boundServerPort_secure   := 65535
  uniqueInstanceID         := 0

theorem parse_broadcastMsgCreator_idle :
    SenderCharacteristics.Parse (idle.broadcastMsgCreator 17) = .ok (false, idle.characteristics 17) :=
  parse_broadcastMsgCreator (by decide) (by decide)

-- A text has a topic if a word stands behind the key and in front of a comma.
def Reads (str : Text) : Prop :=
  ∃ word, Word word ∧ "topic:".toList ++ word ++ ",".toList <:+: str

-- The property of the heartbeats.
def Faithful (now : Int64) (s : MultiClientSender) : Prop :=
  ∀ c, SenderCharacteristics.Parse (s.broadcastMsgCreator now) = .ok (false, c) →
    c.topic = s.topic ∧ c.port_insecure = s.boundServerPort_insecure ∧
    c.port_secure = s.boundServerPort_secure ∧ c.uniqueHandleID = s.uniqueInstanceID

theorem exists_topic_iff {str : Text} :
    (∃ word, MultiClientReceiver.topic str = some word) ↔ Reads str := by
  refine (exists_search_iff (by decide)).trans ⟨?_, ?_⟩
  · exact fun ⟨word, hne, ha, ho⟩ => ⟨word, ⟨hne, ha⟩, ho⟩
  · exact fun ⟨word, ⟨hne, ha⟩, ho⟩ => ⟨word, hne, ha, ho⟩

theorem word_of_topic {str word : Text} (h : MultiClientReceiver.topic str = some word) : Word word :=
  have ⟨hne, ha, _⟩ := found_of_search h
  ⟨hne, ha⟩

-- A topic that is not a word goes unnoticed if no topic is read in it, or if a number in it is too large.
theorem faithful_iff (h : 0 ≤ now) : s.Faithful now ↔
    Word s.topic ∨ ¬Reads s.announcement ∨ ¬SenderCharacteristics.Convertible s.announcement := by
  obtain ⟨n, hn⟩ := Int.eq_ofNat_of_zero_le (Int64.le_iff_toInt_le.mp h)
  constructor
  · intro hf
    by_contra hc
    obtain ⟨hw, hr, hc⟩ := by simpa only [not_or, not_not] using hc
    obtain ⟨word, ht⟩ := exists_topic_iff.mpr hr
    rw [← topic_message (n := n), ← broadcastMsgCreator_eq hn] at ht
    rw [← convertible_message_iff (time_lt hn), ← broadcastMsgCreator_eq hn] at hc
    obtain ⟨⟨hadError, c⟩, hp⟩ := SenderCharacteristics.parse_ok_iff.mpr hc
    obtain ⟨_, _, _, _, _, htopic, rfl⟩ := SenderCharacteristics.Parse_eq_ok_iff.mp hp
    rw [ht] at hp htopic
    exact hw <| (hf c hp).left ▸ htopic ▸ word_of_topic ht
  · rintro (hw | hr | hc) c hp
    · rw [parse_broadcastMsgCreator hw h] at hp
      obtain rfl := (Prod.mk.inj (Except.ok.inj hp)).right
      exact ⟨rfl, rfl, rfl, rfl⟩
    · obtain ⟨_, _, _, _, _, _, he⟩ := SenderCharacteristics.Parse_eq_ok_iff.mp hp
      rw [broadcastMsgCreator_eq hn, topic_message] at he
      have hs : (MultiClientReceiver.topic s.announcement).isSome := by simpa using he.symm
      exact absurd (exists_topic_iff.mp (Option.isSome_iff_exists.mp hs)) hr
    · rw [← convertible_message_iff (time_lt hn), ← broadcastMsgCreator_eq hn] at hc
      exact absurd (SenderCharacteristics.parse_ok_iff.mp ⟨_, hp⟩) hc

theorem faithful_idle : idle.Faithful 17 :=
  (faithful_iff (by decide)).mpr (.inl (by decide))

def imitator : MultiClientSender where
  topic                    := "a,port_insecure:1".toList
  boundServerPort_insecure := 8080
  boundServerPort_secure   := 65535
  uniqueInstanceID         := 5

-- The message is understood as one of the topic `a` with the port 1.
theorem not_faithful : ¬imitator.Faithful 17 := by
  intro h
  have hp : SenderCharacteristics.Parse (imitator.broadcastMsgCreator 17) =
      .ok (false, ⟨"a".toList, 1, 65535, 5, 1, 17⟩) := rfl
  exact absurd (h _ hp).left (by decide)

end BeastNetworking.MultiClientSender
