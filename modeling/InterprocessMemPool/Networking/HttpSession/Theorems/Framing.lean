import InterprocessMemPool.Networking.HttpSession.Framing
import InterprocessMemPool.Networking.HttpSession.Theorems.Transition

namespace BeastNetworking.HttpSession

variable {bodyLength : List UInt8 → SizeT} {header_size n : SizeT} {buffer stream : List UInt8}
variable {s : HttpSession} {c c' : Framing}

theorem resize_eq (h : s.nonhttp_buffer_size = s.nonhttp_buffer) : s.resize n = { s with
    nonhttp_buffer      := if s.nonhttp_buffer < n then n else s.nonhttp_buffer
    nonhttp_buffer_size := if s.nonhttp_buffer < n then n else s.nonhttp_buffer } := by
  cases s
  simp only at h
  subst h
  simp only [resize]
  split <;> rfl

theorem resize_toNat : (if s.nonhttp_buffer < n then n else s.nonhttp_buffer).toNat =
    max s.nonhttp_buffer.toNat n.toNat := by
  split
  case isTrue hlt  =>
    have := UInt64.lt_iff_toNat_lt.mp hlt
    omega
  case isFalse hlt =>
    have := UInt64.le_iff_toNat_le.mp (UInt64.not_lt.mp hlt)
    omega

theorem le_resized (h : header_size ≤ s.nonhttp_buffer) :
    header_size ≤ if s.nonhttp_buffer < n then n else s.nonhttp_buffer := by
  rw [UInt64.le_iff_toNat_le, resize_toNat]
  exact (UInt64.le_iff_toNat_le.mp h).trans (le_max_left ..)

theorem le_resized_self : n ≤ if s.nonhttp_buffer < n then n else s.nonhttp_buffer := by
  rw [UInt64.le_iff_toNat_le, resize_toNat]
  exact le_max_right ..

theorem next_header (hr : s.released = false) (hs : s.reads = [.header header_size])
    (h : s.nonhttp_buffer_size = s.nonhttp_buffer) :
    s.next (raw header_size) (.on_nonhttp_read_header 0 none n) = some { s with
      nonhttp_buffer      := if s.nonhttp_buffer < n + header_size then n + header_size else s.nonhttp_buffer
      nonhttp_buffer_size := if s.nonhttp_buffer < n + header_size then n + header_size else s.nonhttp_buffer
      reads               := [.body header_size n] } := by
  have hn : s.next (raw header_size) (.on_nonhttp_read_header 0 none n) =
      some (({ s with reads := [] }.resize (n + header_size)).start_read (.body header_size n)) := by
    simp [next, hr, hs, on_nonhttp_read_header, raw]
  rw [hn, resize_eq (by exact h)]
  rfl

theorem next_body (hr : s.released = false) (hs : s.reads = [.body header_size n])
    (h : s.nonhttp_buffer_size = s.nonhttp_buffer) (hh : header_size ≤ s.nonhttp_buffer)
    (hn : header_size + n ≤ s.nonhttp_buffer) :
    s.next (raw header_size) (.on_nonhttp_read_body 0 none n) = some { s with
      reads      := [.header header_size]
      http_reads := s.http_reads ++ [header_size + n] } := by
  have hlt : ¬s.nonhttp_buffer < header_size + n := UInt64.not_lt.mpr hn
  have hb : s.next (raw header_size) (.on_nonhttp_read_body 0 none n) =
      some (({ s with reads := [], http_reads := s.http_reads ++ [header_size + n] }.resize header_size).start_read
        (.header header_size)) := by
    simp [next, hr, hs, on_nonhttp_read_body, hlt, on_http_read, do_read, raw]
  rw [hb, resize_eq (by exact h), if_neg (by exact UInt64.not_lt.mpr hh)]
  rw [← h]
  rfl

namespace Framing

-- A header, and a body of the length that the callback computes from it.
structure Frame (bodyLength : List UInt8 → SizeT) (header_size : SizeT) where
  header        : List UInt8
  body          : List UInt8
  header_length : header.length = header_size.toNat
  body_length   : body.length = (bodyLength header).toNat

def Frame.bytes (f : Frame bodyLength header_size) : List UInt8 :=
  f.header ++ f.body

variable {done rest : List (Frame bodyLength header_size)} {f : Frame bodyLength header_size}

-- The session waits for a header. Some frames have been delivered, and the others are still to come.
structure Waiting (done rest : List (Frame bodyLength header_size)) (c : Framing) : Prop where
  released   : c.session.released = false
  reads      : c.session.reads = [.header header_size]
  size       : c.session.nonhttp_buffer_size = c.session.nonhttp_buffer
  buffer     : c.nonhttp_buffer.length = c.session.nonhttp_buffer.toNat
  room       : header_size.toNat ≤ c.nonhttp_buffer.length
  stream     : c.stream = rest.flatMap Frame.bytes
  headers    : c.headers = done.map Frame.header
  http_reads : c.http_reads = done.map Frame.bytes

-- The session waits for the body of a frame. Its header is at the start of the buffer.
structure Reading (done : List (Frame bodyLength header_size)) (f : Frame bodyLength header_size)
    (rest : List (Frame bodyLength header_size)) (c : Framing) : Prop where
  released   : c.session.released = false
  reads      : c.session.reads = [.body header_size (bodyLength f.header)]
  size       : c.session.nonhttp_buffer_size = c.session.nonhttp_buffer
  buffer     : c.nonhttp_buffer.length = c.session.nonhttp_buffer.toNat
  room       : c.nonhttp_buffer.length = max header_size.toNat (bodyLength f.header + header_size).toNat
  header     : c.nonhttp_buffer.take header_size.toNat = f.header
  stream     : c.stream = f.body ++ rest.flatMap Frame.bytes
  headers    : c.headers = (done ++ [f]).map Frame.header
  http_reads : c.http_reads = done.map Frame.bytes

theorem start_session : (start header_size buffer stream).session = {
    ssl                 := false
    nonhttp_buffer      := header_size
    nonhttp_buffer_size := header_size
    reads               := [.header header_size] } := by
  have hz : (if 0 < header_size then header_size else 0) = header_size := by
    split
    case isTrue       => rfl
    case isFalse hpos => exact (UInt64.le_zero_iff.mp (UInt64.not_lt.mp hpos)).symm
  rw [start, HttpSession.start, do_read, raw, if_pos rfl, resize_eq rfl]
  simp only [hz]
  rfl

theorem start_nonhttp_buffer :
    (start header_size buffer stream).nonhttp_buffer = List.replicate header_size.toNat 0 :=
  rfl

theorem waiting_start (frames : List (Frame bodyLength header_size)) :
    Waiting [] frames (start header_size buffer (frames.flatMap Frame.bytes)) := by
  constructor
  case stream     => rfl
  case headers    => rfl
  case http_reads => rfl
  all_goals simp [start_session, start_nonhttp_buffer]

theorem async_read_eq {position n : SizeT} (hn : n.toNat ≤ c.stream.length)
    (hp : position.toNat + n.toNat ≤ c.nonhttp_buffer.length) :
    c.async_read position n = some { c with
      nonhttp_buffer := c.nonhttp_buffer.take position.toNat ++ c.stream.take n.toNat ++
        c.nonhttp_buffer.drop (position.toNat + n.toNat)
      stream         := c.stream.drop n.toNat } :=
  if_pos ⟨hn, hp⟩

theorem next_of_header {c₁ : Framing} {session : HttpSession} (hr : c.session.reads = [.header header_size])
    (ha : c.async_read 0 header_size = some c₁)
    (hs : c₁.session.next (raw header_size)
      (.on_nonhttp_read_header 0 none (bodyLength c₁.nonhttp_buffer)) = some session) :
    c.next bodyLength header_size () =
      some { c₁.proceed session with headers := c₁.headers ++ [c₁.nonhttp_buffer] } := by
  simp [next, hr, ha, hs]

theorem next_of_body {c₁ : Framing} {session : HttpSession} (hr : c.session.reads = [.body header_size n])
    (ha : c.async_read header_size n = some c₁)
    (hs : c₁.session.next (raw header_size) (.on_nonhttp_read_body 0 none n) = some session) :
    c.next bodyLength header_size () = some (c₁.proceed session) := by
  simp [next, hr, ha, hs]

-- The callback gets the header, and what there is behind it in the buffer.
theorem next_waiting (h : Waiting done (f :: rest) c) : ∃ c', c.next bodyLength header_size () = some c' ∧
    c'.headers = c.headers ++ [f.header ++ c.nonhttp_buffer.drop header_size.toNat] ∧
    (c.nonhttp_buffer.length = header_size.toNat → Reading done f rest c') := by
  have hstream : c.stream = f.header ++ (f.body ++ rest.flatMap Frame.bytes) := by
    rw [h.stream, List.flatMap_cons, Frame.bytes, List.append_assoc]
  have ha : c.async_read 0 header_size = _ := async_read_eq
    (by rw [hstream, List.length_append, f.header_length]; omega) (by simpa using h.room)
  have htake : c.stream.take header_size.toNat = f.header := by
    rw [hstream, ← f.header_length, List.take_left']
    rfl
  have hdrop : c.stream.drop header_size.toNat = f.body ++ rest.flatMap Frame.bytes := by
    rw [hstream, ← f.header_length, List.drop_left']
    rfl
  simp only [UInt64.toNat_zero, List.take_zero, List.nil_append, Nat.zero_add, htake, hdrop] at ha
  refine ⟨_, next_of_header h.reads ha (next_header h.released h.reads h.size), rfl, fun hlen => ?_⟩
  have hnil : c.nonhttp_buffer.drop header_size.toNat = [] := List.drop_eq_nil_of_le hlen.le
  have hsize : c.session.nonhttp_buffer.toNat = header_size.toNat := h.buffer.symm.trans hlen
  simp only [hnil, List.append_nil]
  constructor
  case released   => exact h.released
  case reads      => rfl
  case size       => rfl
  case buffer     =>
    simp only [proceed, List.length_append, List.length_replicate, resize_toNat, hsize, f.header_length]
    omega
  case room       =>
    simp only [proceed, List.length_append, List.length_replicate, resize_toNat, hsize, f.header_length]
    omega
  case header     =>
    simp only [proceed, ← f.header_length]
    exact List.take_left' rfl
  case stream     => rfl
  case headers    => simp [h.headers]
  case http_reads => simp [proceed, h.http_reads]

theorem next_reading (h : Reading done f rest c) (hw : header_size.toNat + f.body.length < 2 ^ 64) :
    ∃ c', c.next bodyLength header_size () = some c' ∧ Waiting (done ++ [f]) rest c' ∧
      c'.nonhttp_buffer.length = header_size.toNat + f.body.length := by
  have hn := f.body_length
  have hlen : c.nonhttp_buffer.length = header_size.toNat + f.body.length := by
    rw [h.room, UInt64.toNat_add]
    omega
  have hadd : (header_size + bodyLength f.header).toNat = header_size.toNat + f.body.length := by
    rw [UInt64.toNat_add]
    omega
  have ha : c.async_read header_size (bodyLength f.header) = _ := async_read_eq
    (by rw [h.stream, List.length_append]; omega) (by omega)
  have htake : c.stream.take (bodyLength f.header).toNat = f.body := by
    rw [h.stream, ← hn, List.take_left']
    rfl
  have hdrop : c.stream.drop (bodyLength f.header).toNat = rest.flatMap Frame.bytes := by
    rw [h.stream, ← hn, List.drop_left']
    rfl
  rw [htake, hdrop, h.header, List.drop_eq_nil_of_le (by omega), List.append_nil] at ha
  have hsize := h.buffer.symm.trans hlen
  have hs := next_body h.released h.reads h.size (UInt64.le_iff_toNat_le.mpr (by omega))
    (UInt64.le_iff_toNat_le.mpr (by omega))
  have hbytes : (f.header ++ f.body).length = header_size.toNat + f.body.length := by
    rw [List.length_append, f.header_length]
  refine ⟨_, next_of_body h.reads ha hs, ?_, ?_⟩
  · constructor
    case released   => exact h.released
    case reads      => rfl
    case size       => exact h.size
    case buffer     =>
      simp only [proceed, List.length_append, List.length_replicate, f.header_length]
      omega
    case room       =>
      simp only [proceed, List.length_append, f.header_length]
      omega
    case stream     => rfl
    case headers    => exact h.headers
    case http_reads =>
      have : (f.header ++ f.body).take (header_size + bodyLength f.header).toNat = f.header ++ f.body :=
        List.take_of_length_le (by omega)
      have hnew : (c.session.http_reads ++ [header_size + bodyLength f.header]).drop
          c.session.http_reads.length = [header_size + bodyLength f.header] := List.drop_left' rfl
      simp only [proceed, h.http_reads, hnew, List.map_cons, List.map_nil, this, List.map_append, Frame.bytes]
  · simp only [proceed, List.length_append, List.length_replicate, f.header_length]
    omega

theorem next_reading_none (h : Reading done f rest c) (hw : 2 ^ 64 ≤ header_size.toNat + f.body.length) :
    c.next bodyLength header_size () = none := by
  have hn := f.body_length
  have hroom := h.room
  have := header_size.toNat_lt
  have := (bodyLength f.header + header_size).toNat_lt
  have ha : c.async_read header_size (bodyLength f.header) = none := if_neg (by omega)
  simp [next, h.reads, ha]

theorem next_waiting_none (hh : 0 < header_size) (h : Waiting done [] c) :
    c.next bodyLength header_size () = none := by
  have := SizeT.toNat_pos_iff.mpr hh
  have hs : c.stream.length = 0 := by rw [h.stream]; rfl
  have ha : c.async_read 0 header_size = none := if_neg (by omega)
  simp [next, h.reads, ha]

-- For each frame the callback is called with its header and `on_http_read` with all of it, in their order,
-- and neither is called with anything else. The other end has sent `buffer`, and then `stream`.
structure Delivers (buffer stream : List UInt8) (frames : List (Frame bodyLength header_size)) : Prop where
  headers    : ∀ {c}, (system bodyLength header_size buffer stream).Reachable c →
    c.headers <+: frames.map Frame.header
  http_reads : ∀ {c}, (system bodyLength header_size buffer stream).Reachable c →
    c.http_reads <+: frames.map Frame.bytes
  all        : ∃ c, (system bodyLength header_size buffer stream).Reachable c ∧
    c.headers = frames.map Frame.header ∧ c.http_reads = frames.map Frame.bytes

-- All frames but the last one have an empty body, and the length of none of them wraps around.
structure Fits (frames : List (Frame bodyLength header_size)) : Prop where
  empty : ∀ f ∈ frames.dropLast, f.body = []
  small : ∀ f ∈ frames, header_size.toNat + f.body.length < 2 ^ 64

-- Between two steps the session is at some place in the frames.
inductive Located (frames : List (Frame bodyLength header_size)) (c : Framing) : Prop
  | waiting {sent unsent : List _} (eq : frames = sent ++ unsent) (h : Waiting sent unsent c)
    (hlen : unsent ≠ [] → c.nonhttp_buffer.length = header_size.toNat)
  | reading {sent unsent : List _} {g : Frame bodyLength header_size} (eq : frames = sent ++ g :: unsent)
    (h : Reading sent g unsent c)

variable {frames : List (Frame bodyLength header_size)}

theorem Fits.body_eq_nil (h : Fits (done ++ f :: rest)) (hr : rest ≠ []) : f.body = [] := by
  refine h.empty f ?_
  rw [List.dropLast_append_cons, List.dropLast_cons_of_ne_nil hr]
  simp

theorem Fits.next_located (h : Fits frames) (hh : 0 < header_size) (hl : Located frames c)
    (hn : c.next bodyLength header_size () = some c') : Located frames c' := by
  cases hl
  case waiting done rest eq hw hlen =>
    cases rest
    case nil => cases (next_waiting_none hh hw).symm.trans hn
    case cons f rest =>
      obtain ⟨c₁, hc, _, hr⟩ := next_waiting hw
      obtain rfl := Option.some.inj (hc.symm.trans hn)
      exact .reading eq (hr (hlen (List.cons_ne_nil _ _)))
  case reading done rest f eq hr =>
    obtain ⟨c₁, hc, hw, hlen⟩ := next_reading hr (h.small f (by simp [eq]))
    obtain rfl := Option.some.inj (hc.symm.trans hn)
    subst eq
    refine .waiting (by simp) hw fun hne => ?_
    rw [hlen, h.body_eq_nil hne]
    rfl

theorem Fits.located (h : Fits frames) (hh : 0 < header_size)
    (hc : (system bodyLength header_size [] (frames.flatMap Frame.bytes)).Reachable c) : Located frames c := by
  refine System.Invariant.holds (I := Located frames) ⟨?_, fun _ hl hn => h.next_located hh hl hn⟩ hc
  rintro _ rfl
  exact .waiting rfl (waiting_start frames) fun _ => by simp [start]

theorem Located.headers_le (h : Located frames c) : c.headers <+: frames.map Frame.header := by
  cases h
  case waiting eq hw _ =>
    rw [hw.headers, eq, List.map_append]
    exact List.prefix_append ..
  case reading rest _ eq hr =>
    rw [hr.headers, eq]
    exact ⟨rest.map Frame.header, by simp⟩

theorem Located.http_reads_le (h : Located frames c) : c.http_reads <+: frames.map Frame.bytes := by
  cases h
  case waiting eq hw _ =>
    rw [hw.http_reads, eq, List.map_append]
    exact List.prefix_append ..
  case reading eq hr =>
    rw [hr.http_reads, eq, List.map_append]
    exact List.prefix_append ..

theorem Fits.exists_delivered (h : Fits frames) (eq : frames = done ++ rest)
    (hc : (system bodyLength header_size buffer stream).Reachable c) (hw : Waiting done rest c)
    (hlen : rest ≠ [] → c.nonhttp_buffer.length = header_size.toNat) :
    ∃ c', (system bodyLength header_size buffer stream).Reachable c' ∧ Waiting frames [] c' := by
  induction rest generalizing done c
  case nil => exact ⟨c, hc, by simpa [eq] using hw⟩
  case cons f rest ih =>
    obtain ⟨c₁, hn₁, _, hr⟩ := next_waiting hw
    obtain ⟨c₂, hn₂, hw₂, hlen₂⟩ := next_reading (hr (hlen (List.cons_ne_nil _ _))) (h.small f (by simp [eq]))
    refine ih (by simp [eq]) ((hc.step hn₁).step hn₂) hw₂ fun hne => ?_
    subst eq
    rw [hlen₂, h.body_eq_nil hne]
    rfl

theorem Fits.delivers (h : Fits frames) (hh : 0 < header_size) : Delivers [] (frames.flatMap Frame.bytes) frames where
  headers hc    := (h.located hh hc).headers_le
  http_reads hc := (h.located hh hc).http_reads_le
  all           := by
    have ⟨c, hc, hw⟩ : ∃ c, (system bodyLength header_size [] (frames.flatMap Frame.bytes)).Reachable c ∧
        Waiting frames [] c :=
      h.exists_delivered rfl (.init rfl) (waiting_start frames) fun _ => by simp [start]
    exact ⟨c, hc, hw.headers, hw.http_reads⟩

theorem async_read_frame {position n : SizeT} (h : c.async_read position n = some c') :
    c'.session = c.session ∧ c'.http_reads = c.http_reads ∧ c'.stream.length + n.toNat = c.stream.length := by
  obtain ⟨hle, he⟩ := Option.ite_none_right_eq_some.mp h
  obtain rfl := Option.some.inj he
  refine ⟨rfl, rfl, ?_⟩
  rw [List.length_drop]
  omega

theorem http_reads_prefix_of_next (h : c.next bodyLength header_size () = some c') :
    c.http_reads <+: c'.http_reads := by
  simp only [next] at h
  split at h
  case h_3 => cases h
  all_goals
    obtain ⟨c₁, ha, h⟩ := Option.bind_eq_some_iff.mp h
    obtain ⟨session, _, h⟩ := Option.bind_eq_some_iff.mp h
    rw [← (async_read_frame ha).right.left, ← Option.some.inj h]
    exact List.prefix_append ..

theorem http_reads_prefix_of_run {as : List Unit} (h : (system bodyLength header_size buffer stream).Run c as c') :
    c.http_reads <+: c'.http_reads := by
  induction h
  case refl         => exact List.prefix_refl _
  case step hn _ ih => exact (http_reads_prefix_of_next hn).trans ih

theorem next_unique {a b : Unit} {t u : Framing} (h : c.next bodyLength header_size a = some t)
    (h' : c.next bodyLength header_size b = some u) : t = u :=
  Option.some.inj (h.symm.trans h')

-- If the session is stuck, then nothing that it has not delivered yet will ever be.
theorem Delivers.next_ne_none (h : Delivers [] (frames.flatMap Frame.bytes) frames)
    (hc : (system bodyLength header_size [] (frames.flatMap Frame.bytes)).Reachable c)
    (hlt : c.http_reads.length < frames.length) : c.next bodyLength header_size () ≠ none := by
  intro hn
  have ⟨c', hc', _, hall⟩ := h.all
  have hlen := congrArg List.length hall
  rw [List.length_map] at hlen
  obtain ⟨_, hr⟩ | ⟨_, hr⟩ := hc.run_or_run (fun hs ht => Eq.trans hs (Eq.symm ht)) next_unique hc'
  case inr =>
    have := (http_reads_prefix_of_run hr).length_le
    omega
  case inl =>
    cases hr
    case refl      => omega
    case step hs _ => cases hn.symm.trans hs

theorem Delivers.fits_rest (h : Delivers [] (frames.flatMap Frame.bytes) frames) (eq : frames = done ++ rest)
    (hc : (system bodyLength header_size [] (frames.flatMap Frame.bytes)).Reachable c)
    (hw : Waiting done rest c) (hlen : c.nonhttp_buffer.length = header_size.toNat) : Fits rest := by
  induction rest generalizing done c
  case nil => exact ⟨by simp, by simp⟩
  case cons f rest ih =>
    obtain ⟨c₁, hn₁, _, hr⟩ := next_waiting hw
    have hc₁ := hc.step hn₁
    have hsmall : header_size.toNat + f.body.length < 2 ^ 64 := by
      by_contra hbig
      refine h.next_ne_none hc₁ ?_ (next_reading_none (hr hlen) (not_lt.mp hbig))
      simp [(hr hlen).http_reads, eq]
    obtain ⟨c₂, hn₂, hw₂, hlen₂⟩ := next_reading (hr hlen) hsmall
    have hc₂ := hc₁.step hn₂
    have hempty (hne : rest ≠ []) : f.body = [] := by
      obtain ⟨g, rest, rfl⟩ := List.exists_cons_of_ne_nil hne
      obtain ⟨c₃, hn₃, hheaders, _⟩ := next_waiting hw₂
      have hpre := h.headers (hc₂.step hn₃)
      rw [hheaders, hw₂.headers, eq] at hpre
      simp only [List.map_append, List.map_cons, List.map_nil, List.append_assoc, List.cons_append,
        List.nil_append, List.prefix_append_right_inj, List.prefix_cons_inj] at hpre
      have := congrArg List.length (List.cons_prefix_cons.mp hpre).left
      rw [List.length_append, List.length_drop, hlen₂] at this
      exact List.length_eq_zero_iff.mp (by omega)
    have hfits : Fits rest := by
      by_cases hne : rest = []
      case pos => exact hne ▸ ⟨by simp, by simp⟩
      case neg =>
        refine ih (by simp [eq]) hc₂ hw₂ ?_
        rw [hlen₂, hempty hne]
        rfl
    constructor
    case small => exact List.forall_mem_cons.mpr ⟨hsmall, hfits.small⟩
    case empty =>
      by_cases hne : rest = []
      case pos => simp [hne]
      case neg =>
        rw [List.dropLast_cons_of_ne_nil hne]
        exact List.forall_mem_cons.mpr ⟨hempty hne, hfits.empty⟩

-- The bytes of a header that has been read are delivered with the body.
inductive Pending (header_size : SizeT) (c : Framing) : ℕ → Prop
  | header (h : c.session.reads = [.header header_size]) : Pending header_size c 0
  | body {n : SizeT} (h : c.session.reads = [.body header_size n])
      (hn : header_size + n ≤ c.session.nonhttp_buffer) : Pending header_size c header_size.toNat

-- What is delivered comes from the socket.
structure Bounded (header_size : SizeT) (total : ℕ) (c : Framing) : Prop where
  released : c.session.released = false
  size     : c.session.nonhttp_buffer_size = c.session.nonhttp_buffer
  room     : header_size ≤ c.session.nonhttp_buffer
  bound    : ∃ pending, Pending header_size c pending ∧
    c.http_reads.flatten.length + pending + c.stream.length ≤ total

theorem bounded_start : Bounded header_size stream.length (start header_size buffer stream) := by
  constructor
  case bound => exact ⟨0, .header (by rw [start_session]), by simp [start]⟩
  all_goals simp [start_session]

theorem Bounded.next {total : ℕ} (h : Bounded header_size total c)
    (hn : c.next bodyLength header_size () = some c') : Bounded header_size total c' := by
  obtain ⟨pending, hp, hb⟩ := h.bound
  cases hp
  case header hr =>
    simp only [Framing.next, hr] at hn
    obtain ⟨c₁, ha, hn⟩ := Option.bind_eq_some_iff.mp hn
    obtain ⟨hc, hreads, hlen⟩ := async_read_frame ha
    rw [hc, next_header h.released hr h.size] at hn
    obtain rfl := Option.some.inj hn
    constructor
    case released => exact h.released
    case size     => rfl
    case room     => exact le_resized h.room
    case bound    =>
      refine ⟨_, .body rfl (UInt64.add_comm _ _ ▸ le_resized_self), ?_⟩
      simp only [proceed, hc, hreads, List.drop_length, List.map_nil, List.append_nil]
      omega
  case body n hr hle =>
    simp only [Framing.next, hr] at hn
    obtain ⟨c₁, ha, hn⟩ := Option.bind_eq_some_iff.mp hn
    obtain ⟨hc, hreads, hlen⟩ := async_read_frame ha
    rw [hc, next_body h.released hr h.size h.room hle] at hn
    obtain rfl := Option.some.inj hn
    constructor
    case released => exact h.released
    case size     => exact h.size
    case room     => exact h.room
    case bound    =>
      refine ⟨_, .header rfl, ?_⟩
      have hadd := Nat.mod_le (header_size.toNat + n.toNat) (2 ^ 64)
      rw [← UInt64.toNat_add] at hadd
      have hnew : (c.session.http_reads ++ [header_size + n]).drop c.session.http_reads.length =
          [header_size + n] := List.drop_left' rfl
      simp only [proceed, hc, hreads, hnew, List.map_cons, List.map_nil, List.flatten_append, List.flatten_cons,
        List.flatten_nil, List.append_nil, List.length_append, List.length_take]
      omega

-- Behind `async_detect_ssl` the first bytes are missing.
theorem Delivers.buffer_eq_nil (h : Delivers buffer stream frames)
    (hs : buffer ++ stream = frames.flatMap Frame.bytes) : buffer = [] := by
  have ⟨c, hc, _, hall⟩ := h.all
  have hb : Bounded header_size stream.length c := by
    refine System.Invariant.holds ⟨?_, fun _ hb hn => hb.next hn⟩ hc
    rintro _ rfl
    exact bounded_start
  obtain ⟨_, _, hle⟩ := hb.bound
  have hlen : c.http_reads.flatten.length = buffer.length + stream.length := by
    rw [hall, ← List.flatMap_def, ← hs, List.length_append]
  exact List.length_eq_zero_iff.mp (by omega)

-- The frames are delivered just if all but the last one have an empty body, and nothing has been read before. A body
-- leaves the buffer larger than a header, and from then on the callback gets the old bytes along with each header.
theorem delivers_iff (hh : 0 < header_size) (frames : List (Frame bodyLength header_size))
    (hs : buffer ++ stream = frames.flatMap Frame.bytes) :
    Delivers buffer stream frames ↔ buffer = [] ∧ Fits frames := by
  constructor
  · intro h
    obtain rfl := h.buffer_eq_nil hs
    obtain rfl := hs
    exact ⟨rfl, h.fits_rest rfl (.init rfl) (waiting_start frames) (by simp [start])⟩
  · rintro ⟨rfl, h⟩
    obtain rfl := hs
    exact h.delivers hh

-- Headers of one byte, which is the length of the body.
def firstByte (header : List UInt8) : SizeT :=
  header.head?.elim 0 UInt8.toUInt64

def bare : Frame firstByte 1 :=
  ⟨[0], [], rfl, rfl⟩

def full : Frame firstByte 1 :=
  ⟨[2], [7, 8], rfl, rfl⟩

theorem delivers_iff_run : Delivers [] [0, 2, 7, 8] [bare, full] := by
  have hs : [] ++ [0, 2, 7, 8] = [bare, full].flatMap Frame.bytes := rfl
  exact (delivers_iff (by decide) [bare, full] hs).mpr ⟨rfl, by simp [bare], by simp [bare, full]⟩

-- The callback gets the second header with the body of the first frame behind it. And there is nothing left of a
-- frame that `async_detect_ssl` has read.
theorem not_delivers : ¬Delivers [] [2, 7, 8, 0] [full, bare] ∧ ¬Delivers [0] [] [bare] := by
  constructor
  · intro h
    have ⟨c, hc, hheaders⟩ : ∃ c, ((system firstByte 1 [] [2, 7, 8, 0]).restrict
        fun _ _ => True).Reachable c ∧ c.headers = [[2], [0, 7, 8]] :=
      System.exec_reachable rfl <| show Option.any _ (System.exec _ _ _ [(), (), ()]) by decide +kernel
    have hpre := h.headers hc.of_restrict
    rw [hheaders] at hpre
    simp [full, bare] at hpre
  · intro h
    simpa using h.buffer_eq_nil rfl

end Framing
end BeastNetworking.HttpSession
