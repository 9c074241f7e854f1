import Reframe.Transport.FrameStream
import Reframe.Transport.Outbound

/-! What the peer of a connection is sent: the frames of the calls that succeeded, whole and in the
order in which they were queued, up to where the writer stopped; and the permits that all this
takes. -/
namespace Transport
open Holdings (held held_set held_eraseIdx held_append held_cons held_nil)

/-! Frames cut off at any byte. -/

/-- The stream ended between two frames, or inside one. -/
def Ending.Cut : Ending → Prop
  | .closed => True
  | .failed (.truncatedHeader _) => True
  | .failed (.truncatedPayload _ _) => True
  | .failed _ => False

theorem length_frameOf (payload : List UInt8) :
    (frameOf payload).length = headerSize + payload.length := by
  rw [frameOf, List.length_append]
  rfl

theorem nextFrame_frameOf {maximum : ℕ} {payload : List UInt8} (hlength : payload.length ≤ maximum)
    (hsmall : payload.length < 2 ^ 32) (rest : List UInt8) :
    nextFrame maximum (frameOf payload ++ rest) = .frame payload rest := by
  rw [frameOf, List.append_assoc, FrameReader.nextFrame_header rfl, fromBeBytes_putU32 hsmall,
    if_neg (Nat.not_lt.mpr hlength), if_neg (by rw [List.length_append]; omega), List.take_left,
    List.drop_left]

/-- A first part of a frame is no frame. -/
theorem nextFrame_part {maximum : ℕ} {payload part : List UInt8} (hlength : payload.length ≤ maximum)
    (hsmall : payload.length < 2 ^ 32) (hpart : part <+: frameOf payload)
    (hproper : part.length < (frameOf payload).length) :
    ∃ ending, (parse maximum part) = ([], ending) ∧ ending.Cut ∧ (ending = .closed ↔ part = []) := by
  by_cases hnil : part = []
  · subst hnil
    exact ⟨.closed, parse_closed rfl, trivial, iff_of_true rfl rfl⟩
  by_cases hheader : part.length < headerSize
  · have hnext : nextFrame maximum part = .failed (.truncatedHeader part.length) := by
      rw [nextFrame, if_neg hnil, if_pos hheader]
    exact ⟨_, parse_failed hnext, trivial, iff_of_false (fun h => by cases h) hnil⟩
  · have htake : part.take headerSize = putU32 payload.length := by
      obtain ⟨rest, hrest⟩ := hpart
      have hsame := congrArg (List.take headerSize) hrest
      rw [List.take_append_of_le_length (Nat.not_lt.mp hheader), frameOf] at hsame
      exact hsame.trans (List.take_left' rfl)
    rw [length_frameOf] at hproper
    have hnext : nextFrame maximum part = .failed (.truncatedPayload payload.length
        (part.drop headerSize).length) := by
      rw [nextFrame, if_neg hnil, if_neg hheader, htake, fromBeBytes_putU32 hsmall]
      rw [if_neg (Nat.not_lt.mpr hlength), if_pos (by rw [List.length_drop]; omega)]
    exact ⟨_, parse_failed hnext, trivial, iff_of_false (fun h => by cases h) hnil⟩

/-- What is read of frames cut off at a byte are the whole frames before it. -/
theorem parse_prefix {maximum : ℕ} :
    ∀ (payloads : List (List UInt8)) (wire : List UInt8),
      (∀ payload ∈ payloads, payload.length ≤ maximum ∧ payload.length < 2 ^ 32) →
      wire <+: payloads.flatMap frameOf →
      ∃ count ending, parse maximum wire = (payloads.take count, ending) ∧ ending.Cut ∧
        (ending = .closed ↔ wire = (payloads.take count).flatMap frameOf) := by
  intro payloads
  induction payloads with
  | nil =>
    intro wire _ hwire
    rw [List.flatMap_nil, List.prefix_nil] at hwire
    subst hwire
    exact ⟨0, .closed, parse_closed rfl, trivial, iff_of_true rfl rfl⟩
  | cons payload payloads ih =>
    intro wire hfit hwire
    rw [List.forall_mem_cons] at hfit
    rw [List.flatMap_cons] at hwire
    by_cases hwhole : (frameOf payload).length ≤ wire.length
    · obtain ⟨rest, rfl⟩ := List.prefix_of_prefix_length_le (List.prefix_append _ _) hwire hwhole
      have hrest := (List.prefix_append_right_inj _).mp hwire
      obtain ⟨count, ending, hparse, hcut, hclosed⟩ := ih rest hfit.2 hrest
      refine ⟨count + 1, ending, ?_, hcut, ?_⟩
      · rw [parse_frame (nextFrame_frameOf hfit.1.1 hfit.1.2 rest), hparse, List.take_succ_cons]
      · rw [hclosed, List.take_succ_cons, List.flatMap_cons, List.append_cancel_left_eq]
    · have hpart : wire <+: frameOf payload :=
        List.prefix_of_prefix_length_le hwire (List.prefix_append _ _) (by omega)
      obtain ⟨ending, hparse, hcut, hclosed⟩ := nextFrame_part hfit.1.1 hfit.1.2 hpart (by omega)
      exact ⟨0, ending, hparse, hcut, by rw [hclosed]; rfl⟩

/-- Frames that end with the stream are read whole. -/
theorem parse_flatMap {maximum : ℕ} {payloads : List (List UInt8)}
    (h : ∀ payload ∈ payloads, payload.length ≤ maximum ∧ payload.length < 2 ^ 32) :
    parse maximum (payloads.flatMap frameOf) = (payloads, .closed) := by
  induction payloads with
  | nil => exact parse_closed rfl
  | cons payload payloads ih =>
    rw [List.forall_mem_cons] at h
    rw [List.flatMap_cons, parse_frame (nextFrame_frameOf h.1.1 h.1.2 _), ih h.2]

/-! What a step can do. -/

/-- A payload of a size that is sent. -/
def Fits (config : TransportConfig) (payload : List UInt8) : Prop :=
  payload.length ≤ config.maxFrameSize ∧ payload.length < 2 ^ 32

namespace Connection

/-- The steps of the calls and of the writer, with what each of them found. -/
inductive Outbound (config : TransportConfig) (pools : Pools) (c : Connection) :
    Pools → Connection → Prop where
  | send (payload : List UInt8) (hsenders : c.senders = true) (hfits : Fits config payload) :
    Outbound config pools c pools { c with sendings := c.sendings ++ [⟨payload, .checked⟩] }
  | reserve (call : ℕ) (payload : List UInt8) (hget : c.sendings[call]? = some ⟨payload, .checked⟩)
    (hopen : c.queueOpen = true) (hroom : c.places < config.outboundCapacity) :
    Outbound config pools c pools (c.advance call payload .reserved)
  | acquireBytes (call : ℕ) (payload : List UInt8)
    (hget : c.sendings[call]? = some ⟨payload, .reserved⟩) (hroom : payload.length ≤ c.byteBudget) :
    Outbound config pools c pools { c.advance call payload .budgeted with
      byteBudget := c.byteBudget - payload.length }
  | acquireAggregate (call : ℕ) (payload : List UInt8)
    (hget : c.sendings[call]? = some ⟨payload, .budgeted⟩) (hroom : payload.length ≤ pools.aggregate) :
    Outbound config pools c { pools with aggregate := pools.aggregate - payload.length }
      (c.advance call payload .ready)
  | enqueue (call : ℕ) (payload : List UInt8) (hget : c.sendings[call]? = some ⟨payload, .ready⟩) :
    Outbound config pools c pools { c with
      sendings := c.sendings.eraseIdx call
      queue := c.queue ++ [payload]
      sent := c.sent ++ [payload] }
  | abandon (call : ℕ) (sending : Sending) (hget : c.sendings[call]? = some sending) :
    Outbound config pools c { pools with aggregate := pools.aggregate + sending.aggregateBytes }
      { c with
        sendings := c.sendings.eraseIdx call
        byteBudget := c.byteBudget + sending.connectionBytes }
  | start (payload : List UInt8) (queue : List (List UInt8)) (hended : c.ended = false)
    (hwriting : c.writing = none) (hqueue : c.queue = payload :: queue) :
    Outbound config pools c pools { c with queue := queue, writing := some ⟨payload, 0⟩ }
  | refuse (payload : List UInt8) (queue : List (List UInt8)) (poisoned : Bool)
    (hended : c.ended = false) (hwriting : c.writing = none) (hqueue : c.queue = payload :: queue) :
    Outbound config pools c { pools with aggregate := pools.aggregate + payload.length }
      ({ c with queue := queue, writing := some ⟨payload, 0⟩ }.endWriter ⟨payload, 0⟩ poisoned)
  | write (payload : List UInt8) (written count : ℕ) (hwriting : c.writing = some ⟨payload, written⟩)
    (hroom : written + count ≤ (frameOf payload).length) :
    Outbound config pools c pools { c with
      wire := c.wire ++ ((frameOf payload).drop written).take count
      writing := some ⟨payload, written + count⟩ }
  | finish (payload : List UInt8) (hwriting : c.writing = some ⟨payload, (frameOf payload).length⟩) :
    Outbound config pools c { pools with aggregate := pools.aggregate + payload.length }
      { c with byteBudget := c.byteBudget + payload.length, writing := none }
  | fail (writing : Writing) (poisoned : Bool) (hwriting : c.writing = some writing) :
    Outbound config pools c { pools with aggregate := pools.aggregate + writing.payload.length }
      (c.endWriter writing poisoned)
  | closeQueue : Outbound config pools c pools { c with queueOpen := false }
  | closeBudget : Outbound config pools c pools { c with budgetOpen := false }
  | elapse (hended : c.ended = false) (hwriting : c.writing = none) :
    Outbound config pools c pools { c with ended := true }
  | stop (hended : c.ended = false) (hwriting : c.writing = none) (hqueue : c.queue = [])
    (hlast : c.senders = false ∨ c.queueOpen = false ∧ held Sending.places c.sendings = 0) :
    Outbound config pools c pools { c with ended := true, drained := true }
  | dropReceiver (hended : c.ended = true) :
    Outbound config pools c
      { pools with aggregate := pools.aggregate + held List.length c.queue }
      { c.dropQueue with queueOpen := false, receiving := false }
  | leaveReceiver (hsendings : c.sendings = []) :
    Outbound config pools c pools { c with senders := false }
  | dropSenders (hsendings : c.sendings = []) (hreceiving : c.receiving = false) :
    Outbound config pools c
      { pools with aggregate := pools.aggregate + held List.length c.queue }
      { c.dropQueue with senders := false }

variable {config : TransportConfig} {pools pools' : Pools} {c c' : Connection}
  {action : ConnectionAction}

theorem receive_cases (payload : List UInt8) (queue : List (List UInt8)) (hended : c.ended = false)
    (hwriting : c.writing = none) (hqueue : c.queue = payload :: queue) :
    Outbound config pools c (receive config pools c payload queue).1
      (receive config pools c payload queue).2 := by
  rw [receive]
  cases validateLength payload.length config.maxFrameSize with
  | error error => exact .refuse payload queue _ hended hwriting hqueue
  | ok =>
    simp only
    split_ifs with hpoisoned
    · exact .refuse payload queue true hended hwriting hqueue
    · exact .start payload queue hended hwriting hqueue

theorem stepOut_cases (h : stepOut config pools c action = some (pools', c')) :
    Outbound config pools c pools' c' := by
  cases action with
  | send payload =>
    rw [stepOut] at h
    split_ifs at h with hsend
    cases h
    exact .send payload hsend.1 hsend.2
  | reserve call =>
    rw [stepOut] at h
    split at h
    · rename_i payload hget
      split_ifs at h with hroom
      cases h
      exact .reserve call payload hget hroom.1 hroom.2
    · cases h
  | acquireBytes call =>
    rw [stepOut] at h
    split at h
    · rename_i payload hget
      split_ifs at h with hroom
      cases h
      exact .acquireBytes call payload hget hroom.2
    · cases h
  | acquireAggregate call =>
    rw [stepOut] at h
    split at h
    · rename_i payload hget
      split_ifs at h with hroom
      cases h
      exact .acquireAggregate call payload hget hroom
    · cases h
  | enqueue call =>
    rw [stepOut] at h
    split at h
    · rename_i payload hget
      cases h
      exact .enqueue call payload hget
    · cases h
  | abandon call =>
    rw [stepOut] at h
    split at h
    · rename_i sending hget
      cases h
      exact .abandon call sending hget
    · cases h
  | receive =>
    rw [stepOut] at h
    split at h
    · rename_i payload queue hwriting hqueue
      split_ifs at h with hended
      have hsame := Option.some.inj h
      have hcases : Outbound config pools c (receive config pools c payload queue).1
          (receive config pools c payload queue).2 :=
        receive_cases payload queue (Bool.eq_false_iff.mpr hended) hwriting hqueue
      rwa [hsame] at hcases
    · cases h
  | write count =>
    rw [stepOut] at h
    split at h
    · rename_i payload written hwriting
      split_ifs at h with hroom
      cases h
      exact .write payload written count hwriting hroom
    · cases h
  | finish =>
    rw [stepOut] at h
    split at h
    · rename_i payload written hwriting
      split_ifs at h with hroom
      cases h
      exact .finish payload (hroom ▸ hwriting)
    · cases h
  | fail poisons =>
    rw [stepOut] at h
    split at h
    · rename_i writing hwriting
      cases h
      exact .fail writing _ hwriting
    · cases h
  | closeQueue =>
    rw [stepOut] at h
    split_ifs at h
    cases h
    exact .closeQueue
  | closeBudget =>
    rw [stepOut] at h
    split_ifs at h
    cases h
    exact .closeBudget
  | elapse =>
    rw [stepOut] at h
    split_ifs at h with hover
    cases h
    exact .elapse hover.1 hover.2.1
  | stop =>
    rw [stepOut] at h
    split_ifs at h with hstop
    cases h
    exact .stop hstop.1 hstop.2.1 hstop.2.2.1 hstop.2.2.2
  | dropReceiver =>
    rw [stepOut] at h
    split_ifs at h with hdrop
    cases h
    exact .dropReceiver hdrop.1
  | dropSenders =>
    rw [stepOut] at h
    split_ifs at h with hsendings hreceiving
    · cases h
      exact .leaveReceiver hsendings
    · cases h
      exact .dropSenders hsendings (Bool.eq_false_iff.mpr hreceiving)
  | _ => cases h

/-- A step of the reader or of a handler changes nothing of what is sent. -/
theorem stepIn_eq (h : stepIn config pools c action = some (pools', c')) :
    pools'.aggregate = pools.aggregate ∧ ∃ reading admitted handlers running closed, c' = { c with
      reading := reading
      admitted := admitted
      handlers := handlers
      running := running
      closed := closed } := by
  cases action with
  | acquireInbound | dispatch | resetFrame | finishHandler | joinHandler | close =>
    rw [stepIn] at h
    split_ifs at h
    cases h
    exact ⟨rfl, _, _, _, _, _, rfl⟩
  | dropReader =>
    rw [stepIn] at h
    split_ifs at h
    cases h
    exact ⟨rfl, _, _, _, _, _, rfl⟩
  | _ => cases h

/-! What is written. -/

/-- No call can queue a frame any more. -/
def Silent (c : Connection) : Prop :=
  held Sending.places c.sendings = 0 ∧ (c.queueOpen = false ∨ c.senders = false)

/-- Where the wire stands in the frames that were queued. -/
inductive Stream (c : Connection) : Prop where
  | idle (done : List (List UInt8)) (hended : c.ended = false) (hdrained : c.drained = false)
    (hwriting : c.writing = none) (hsent : c.sent = done ++ c.queue)
    (hwire : c.wire = done.flatMap frameOf)
  | writing (done : List (List UInt8)) (payload : List UInt8) (written : ℕ) (hended : c.ended = false)
    (hdrained : c.drained = false) (hwriting : c.writing = some ⟨payload, written⟩)
    (hsent : c.sent = done ++ payload :: c.queue) (hwritten : written ≤ (frameOf payload).length)
    (hwire : c.wire = done.flatMap frameOf ++ (frameOf payload).take written)
  | ended (hended : c.ended = true) (hwriting : c.writing = none)
    (hwire : c.wire <+: c.sent.flatMap frameOf)
    (hdrained : c.drained = true → c.wire = c.sent.flatMap frameOf ∧ c.Silent)

/-- What holds of every connection between two steps. -/
structure Flows (config : TransportConfig) (c : Connection) : Prop where
  sent : ∀ payload ∈ c.sent, Fits config payload
  calls : ∀ sending ∈ c.sendings, Fits config sending.payload
  senders : c.senders = false → c.sendings = []
  receiving : c.receiving = false → c.ended = true
  poisoned : c.poisoned = true → c.ended = true
  stream : c.Stream

theorem flows_new : (new config).Flows config :=
  ⟨fun _ h => absurd h List.not_mem_nil, fun _ h => absurd h List.not_mem_nil, fun _ => rfl,
    fun h => (by cases h), fun h => (by cases h), .idle [] rfl rfl rfl rfl rfl⟩

/-- What was written is a first part of what was queued. -/
theorem Stream.wire_prefix (h : c.Stream) : c.wire <+: c.sent.flatMap frameOf := by
  cases h with
  | idle done _ _ _ hsent hwire =>
    rw [hsent, hwire, List.flatMap_append]
    exact List.prefix_append _ _
  | writing done payload written _ _ _ hsent _ hwire =>
    rw [hsent, hwire, List.flatMap_append, List.flatMap_cons]
    exact (List.prefix_append_right_inj _).mpr
      ((List.take_prefix _ _).trans (List.prefix_append _ _))
  | ended _ _ hwire => exact hwire

theorem Stream.drained (h : c.Stream) (hdrained : c.drained = true) :
    c.ended = true ∧ c.wire = c.sent.flatMap frameOf ∧ c.Silent := by
  cases h with
  | idle _ _ hno => rw [hno] at hdrained; cases hdrained
  | writing _ _ _ _ hno => rw [hno] at hdrained; cases hdrained
  | ended hended _ _ hall => exact ⟨hended, hall hdrained⟩

/-- Only the fields that a stream is about matter. -/
theorem Stream.congr (h : c.Stream) (hended : c'.ended = c.ended) (hdrained : c'.drained = c.drained)
    (hwriting : c'.writing = c.writing) (hsent : c'.sent = c.sent) (hqueue : c'.queue = c.queue)
    (hwire : c'.wire = c.wire) (hsilent : c.Silent → c'.Silent) : c'.Stream := by
  cases h with
  | idle done hended' hdrained' hwriting' hsent' hwire' =>
    exact .idle done (hended.trans hended') (hdrained.trans hdrained') (hwriting.trans hwriting')
      (by rw [hsent, hqueue, hsent']) (hwire.trans hwire')
  | writing done payload written hended' hdrained' hwriting' hsent' hwritten hwire' =>
    exact .writing done payload written (hended.trans hended') (hdrained.trans hdrained')
      (hwriting.trans hwriting') (by rw [hsent, hqueue, hsent']) hwritten (hwire.trans hwire')
  | ended hended' hwriting' hwire' hdrained' =>
    refine .ended (hended.trans hended') (hwriting.trans hwriting') (by rw [hwire, hsent]; exact hwire')
      fun h => ?_
    rw [hwire, hsent]
    exact ⟨(hdrained' (hdrained ▸ h)).1, hsilent (hdrained' (hdrained ▸ h)).2⟩

/-- The writer stops at the frame it is writing. -/
theorem Stream.endWriter (h : c.Stream) {payload : List UInt8} {written : ℕ}
    (hwriting : c.writing = some ⟨payload, written⟩) (poisoned : Bool) :
    (c.endWriter ⟨payload, written⟩ poisoned).Stream := by
  have hwire := h.wire_prefix
  cases h with
  | idle _ _ _ hno => rw [hno] at hwriting; cases hwriting
  | ended _ hno => rw [hno] at hwriting; cases hwriting
  | writing _ _ _ _ hdrained =>
    exact .ended rfl rfl hwire fun h => absurd (hdrained.symm.trans h) (by decide)

/-- A frame is taken from the queue. -/
theorem Stream.start (h : c.Stream) {payload : List UInt8} {queue : List (List UInt8)}
    (hended : c.ended = false) (hwriting : c.writing = none) (hqueue : c.queue = payload :: queue) :
    { c with queue := queue, writing := some ⟨payload, 0⟩ }.Stream := by
  cases h with
  | idle done _ hdrained _ hsent hwire =>
    refine .writing done payload 0 hended hdrained rfl (hsent.trans (by rw [hqueue])) (Nat.zero_le _) ?_
    rw [List.take_zero, List.append_nil]
    exact hwire
  | writing _ _ _ _ _ hno => rw [hno] at hwriting; cases hwriting
  | ended hno => rw [hno] at hended; cases hended

theorem Silent.sendings {sendings : List Sending} (h : c.Silent)
    (hplaces : held Sending.places sendings ≤ held Sending.places c.sendings) :
    { c with sendings := sendings }.Silent :=
  ⟨Nat.le_zero.mp (hplaces.trans_eq h.1), h.2⟩

theorem places_eraseIdx_le {call : ℕ} {sendings : List Sending} :
    held Sending.places (sendings.eraseIdx call) ≤ held Sending.places sendings := by
  cases hget : sendings[call]? with
  | none => rw [List.eraseIdx_of_length_le (List.getElem?_eq_none_iff.mp hget)]
  | some sending => exact Nat.le_of_add_right_le (held_eraseIdx _ hget).le

/-- A call that holds a place keeps the connection from being silent. -/
theorem Silent.not_places (h : c.Silent) {call : ℕ} {sending : Sending}
    (hget : c.sendings[call]? = some sending) : sending.places = 0 :=
  Nat.le_zero.mp ((Holdings.le_held (List.mem_of_getElem? hget)).trans_eq h.1)

theorem Outbound.stream (h : Outbound config pools c pools' c') (hflows : c.Flows config) :
    c'.Stream := by
  have hstream := hflows.stream
  cases h with
  | send payload hsenders hfits =>
    refine hstream.congr rfl rfl rfl rfl rfl rfl fun hsilent => ⟨?_, hsilent.2⟩
    rw [held_append, hsilent.1]
    rfl
  | reserve call payload hget hopen hroom =>
    refine hstream.congr rfl rfl rfl rfl rfl rfl fun hsilent => ?_
    rcases hsilent.2 with hclosed | hnone
    · rw [hclosed] at hopen; cases hopen
    · rw [hflows.senders hnone] at hget; cases hget
  | acquireBytes call payload hget hroom =>
    exact hstream.congr rfl rfl rfl rfl rfl rfl fun hsilent => absurd (hsilent.not_places hget)
      Nat.one_ne_zero
  | acquireAggregate call payload hget hroom =>
    exact hstream.congr rfl rfl rfl rfl rfl rfl fun hsilent => absurd (hsilent.not_places hget)
      Nat.one_ne_zero
  | enqueue call payload hget =>
    cases hstream with
    | idle done hended hdrained hwriting hsent hwire =>
      exact .idle done hended hdrained hwriting
        ((congrArg (· ++ [payload]) hsent).trans (List.append_assoc _ _ _)) hwire
    | writing done next written hended hdrained hwriting hsent hwritten hwire =>
      exact .writing done next written hended hdrained hwriting
        ((congrArg (· ++ [payload]) hsent).trans (List.append_assoc _ _ _)) hwritten hwire
    | ended hended hwriting hwire hdrained =>
      refine .ended hended hwriting ?_ fun h => absurd ((hdrained h).2.not_places hget)
        Nat.one_ne_zero
      rw [List.flatMap_append]
      exact hwire.trans (List.prefix_append _ _)
  | abandon call sending hget =>
    exact hstream.congr rfl rfl rfl rfl rfl rfl fun hsilent => hsilent.sendings places_eraseIdx_le
  | start payload queue hended hwriting hqueue => exact hstream.start hended hwriting hqueue
  | refuse payload queue poisoned hended hwriting hqueue =>
    exact (hstream.start hended hwriting hqueue).endWriter rfl poisoned
  | write payload written count hwriting hroom =>
    cases hstream with
    | idle _ _ _ hno => rw [hno] at hwriting; cases hwriting
    | ended _ hno => rw [hno] at hwriting; cases hwriting
    | writing done payload' written' hended hdrained hwriting' hsent hwritten hwire =>
      cases hwriting'.symm.trans hwriting
      refine .writing done payload (written + count) hended hdrained rfl hsent hroom ?_
      rw [hwire, List.append_assoc, List.take_add]
  | finish payload hwriting =>
    cases hstream with
    | idle _ _ _ hno => rw [hno] at hwriting; cases hwriting
    | ended _ hno => rw [hno] at hwriting; cases hwriting
    | writing done payload' written' hended hdrained hwriting' hsent hwritten hwire =>
      cases hwriting'.symm.trans hwriting
      refine .idle (done ++ [payload]) hended hdrained rfl (hsent.trans (List.append_cons _ _ _)) ?_
      rw [hwire, List.take_length, List.flatMap_append, List.flatMap_singleton]
  | fail writing poisoned hwriting => exact hstream.endWriter hwriting poisoned
  | closeQueue => exact hstream.congr rfl rfl rfl rfl rfl rfl fun hsilent => ⟨hsilent.1, .inl rfl⟩
  | closeBudget => exact hstream.congr rfl rfl rfl rfl rfl rfl fun hsilent => hsilent
  | elapse hended hwriting =>
    cases hstream with
    | idle done _ hdrained _ hsent hwire =>
      refine .ended rfl hwriting ?_ fun h => absurd (hdrained.symm.trans h) (by decide)
      rw [hsent, hwire, List.flatMap_append]
      exact List.prefix_append _ _
    | writing _ _ _ _ _ hno => rw [hno] at hwriting; cases hwriting
    | ended hno => rw [hno] at hended; cases hended
  | stop hended hwriting hqueue hlast =>
    have hsilent : c.Silent := by
      rcases hlast with hnone | ⟨hclosed, hplaces⟩
      · exact ⟨by rw [hflows.senders hnone]; rfl, .inr hnone⟩
      · exact ⟨hplaces, .inl hclosed⟩
    cases hstream with
    | idle done _ _ _ hsent hwire =>
      rw [hqueue, List.append_nil] at hsent
      exact .ended rfl hwriting (by rw [hsent, hwire]) fun _ => ⟨by rw [hsent, hwire], hsilent⟩
    | writing _ _ _ _ _ hno => rw [hno] at hwriting; cases hwriting
    | ended hno => rw [hno] at hended; cases hended
  | dropReceiver hended =>
    cases hstream with
    | idle _ hno => rw [hno] at hended; cases hended
    | writing _ _ _ hno => rw [hno] at hended; cases hended
    | ended _ hwriting hwire hdrained =>
      exact .ended hended hwriting hwire fun h => ⟨(hdrained h).1, (hdrained h).2.1, .inl rfl⟩
  | leaveReceiver hsendings =>
    exact hstream.congr rfl rfl rfl rfl rfl rfl fun hsilent => ⟨hsilent.1, .inr rfl⟩
  | dropSenders hsendings hreceiving =>
    have hended := hflows.receiving hreceiving
    cases hstream with
    | idle _ hno => rw [hno] at hended; cases hended
    | writing _ _ _ hno => rw [hno] at hended; cases hended
    | ended _ hwriting hwire hdrained =>
      exact .ended hended hwriting hwire fun h => ⟨(hdrained h).1, (hdrained h).2.1, .inr rfl⟩

theorem mem_advance {call : ℕ} {payload : List UInt8} {before stage : Stage} {sending : Sending}
    (hget : c.sendings[call]? = some ⟨payload, before⟩)
    (hmem : sending ∈ (c.advance call payload stage).sendings) :
    ∃ sending' ∈ c.sendings, sending'.payload = sending.payload := by
  rcases List.mem_or_eq_of_mem_set hmem with hmem | rfl
  · exact ⟨sending, hmem, rfl⟩
  · exact ⟨_, List.mem_of_getElem? hget, rfl⟩

/-- The calls are those there were, or one more of a size that is sent. -/
theorem Outbound.calls (h : Outbound config pools c pools' c') {sending : Sending}
    (hmem : sending ∈ c'.sendings) :
    (∃ sending' ∈ c.sendings, sending'.payload = sending.payload) ∨ Fits config sending.payload := by
  cases h with
  | send payload hsenders hfits =>
    rcases List.mem_append.mp hmem with hmem | hmem
    · exact .inl ⟨sending, hmem, rfl⟩
    · rw [List.mem_singleton.mp hmem]
      exact .inr hfits
  | reserve call payload hget => exact .inl (mem_advance hget hmem)
  | acquireBytes call payload hget => exact .inl (mem_advance hget hmem)
  | acquireAggregate call payload hget => exact .inl (mem_advance hget hmem)
  | enqueue call payload hget => exact .inl ⟨sending, List.mem_of_mem_eraseIdx hmem, rfl⟩
  | abandon call sending' hget => exact .inl ⟨sending, List.mem_of_mem_eraseIdx hmem, rfl⟩
  | _ => exact .inl ⟨sending, hmem, rfl⟩

/-- What is queued was a call. -/
theorem Outbound.sent (h : Outbound config pools c pools' c') :
    c'.sent = c.sent ∨ ∃ sending ∈ c.sendings, c'.sent = c.sent ++ [sending.payload] := by
  cases h with
  | enqueue call payload hget => exact .inr ⟨_, List.mem_of_getElem? hget, rfl⟩
  | _ => exact .inl rfl

/-- Without a sender there is no call. -/
theorem Outbound.senders (h : Outbound config pools c pools' c')
    (hsenders : c.senders = false → c.sendings = []) : c'.senders = false → c'.sendings = [] := by
  intro hnone
  cases h with
  | send payload hyes => rw [hyes] at hnone; cases hnone
  | reserve call payload hget => rw [hsenders hnone] at hget; cases hget
  | acquireBytes call payload hget => rw [hsenders hnone] at hget; cases hget
  | acquireAggregate call payload hget => rw [hsenders hnone] at hget; cases hget
  | enqueue call payload hget => rw [hsenders hnone] at hget; cases hget
  | abandon call sending hget => rw [hsenders hnone] at hget; cases hget
  | leaveReceiver hsendings => exact hsendings
  | dropSenders hsendings => exact hsendings
  | _ => exact hsenders hnone

/-- The receiver is dropped only after the writer has ended, which is for good. -/
theorem Outbound.receiving (h : Outbound config pools c pools' c')
    (hreceiving : c.receiving = false → c.ended = true) :
    (c'.receiving = false → c'.ended = true) ∧ (c.ended = true → c'.ended = true) := by
  cases h with
  | refuse => exact ⟨fun _ => rfl, fun _ => rfl⟩
  | fail => exact ⟨fun _ => rfl, fun _ => rfl⟩
  | elapse => exact ⟨fun _ => rfl, fun _ => rfl⟩
  | stop => exact ⟨fun _ => rfl, fun _ => rfl⟩
  | dropReceiver hended => exact ⟨fun _ => hended, fun h => h⟩
  | _ => exact ⟨hreceiving, fun h => h⟩

/-- The writer is poisoned only by a write that fails. -/
theorem Outbound.poisoned (h : Outbound config pools c pools' c')
    (hpoisoned : c.poisoned = true → c.ended = true) : c'.poisoned = true → c'.ended = true := by
  cases h with
  | refuse => exact fun _ => rfl
  | fail => exact fun _ => rfl
  | elapse => exact fun _ => rfl
  | stop => exact fun _ => rfl
  | _ => exact hpoisoned

theorem Outbound.flows (h : Outbound config pools c pools' c') (hflows : c.Flows config) :
    c'.Flows config := by
  refine ⟨fun payload hmem => ?_, fun sending hmem => ?_, h.senders hflows.senders,
    (h.receiving hflows.receiving).1, h.poisoned hflows.poisoned, h.stream hflows⟩
  · rcases h.sent with hsent | ⟨sending, hcall, hsent⟩
    · exact hflows.sent payload (hsent ▸ hmem)
    · rw [hsent] at hmem
      rcases List.mem_append.mp hmem with hmem | hmem
      · exact hflows.sent payload hmem
      · rw [List.mem_singleton.mp hmem]
        exact hflows.calls sending hcall
  · rcases h.calls hmem with ⟨sending', hcall, hpayload⟩ | hfits
    · exact hpayload ▸ hflows.calls sending' hcall
    · exact hfits

/-- What later steps keep of a connection. -/
structure Extends (c c' : Connection) : Prop where
  sent : c.sent <+: c'.sent
  wire : c.wire <+: c'.wire
  ended : c.ended = true → c'.ended = true ∧ c'.wire = c.wire
  drained : c.drained = true → c'.drained = true ∧ c'.sent = c.sent

theorem Extends.refl (c : Connection) : c.Extends c :=
  ⟨List.prefix_refl _, List.prefix_refl _, fun h => ⟨h, rfl⟩, fun h => ⟨h, rfl⟩⟩

theorem Extends.trans {c₁ c₂ c₃ : Connection} (h : c₁.Extends c₂) (h' : c₂.Extends c₃) :
    c₁.Extends c₃ :=
  ⟨h.sent.trans h'.sent, h.wire.trans h'.wire,
    fun hended => ⟨(h'.ended (h.ended hended).1).1,
      (h'.ended (h.ended hended).1).2.trans (h.ended hended).2⟩,
    fun hdrained => ⟨(h'.drained (h.drained hdrained).1).1,
      (h'.drained (h.drained hdrained).1).2.trans (h.drained hdrained).2⟩⟩

theorem Outbound.extends (h : Outbound config pools c pools' c') (hflows : c.Flows config) :
    c.Extends c' := by
  cases h with
  | enqueue call payload hget =>
    exact ⟨List.prefix_append _ _, List.prefix_refl _, fun h => ⟨h, rfl⟩, fun h =>
      absurd ((hflows.stream.drained h).2.2.not_places hget) Nat.one_ne_zero⟩
  | write payload written count hwriting =>
    have hended : c.ended = false := by
      cases hflows.stream with
      | idle _ h => exact h
      | writing _ _ _ h => exact h
      | ended _ hno => rw [hno] at hwriting; cases hwriting
    exact ⟨List.prefix_refl _, List.prefix_append _ _, fun h => absurd (hended.symm.trans h) (by decide),
      fun h => ⟨h, rfl⟩⟩
  | refuse => exact ⟨List.prefix_refl _, List.prefix_refl _, fun _ => ⟨rfl, rfl⟩, fun h => ⟨h, rfl⟩⟩
  | fail => exact ⟨List.prefix_refl _, List.prefix_refl _, fun _ => ⟨rfl, rfl⟩, fun h => ⟨h, rfl⟩⟩
  | elapse => exact ⟨List.prefix_refl _, List.prefix_refl _, fun _ => ⟨rfl, rfl⟩, fun h => ⟨h, rfl⟩⟩
  | stop => exact ⟨List.prefix_refl _, List.prefix_refl _, fun _ => ⟨rfl, rfl⟩, fun _ => ⟨rfl, rfl⟩⟩
  | _ => exact ⟨List.prefix_refl _, List.prefix_refl _, fun h => ⟨h, rfl⟩, fun h => ⟨h, rfl⟩⟩

theorem step_cases (h : step config pools c action = some (pools', c')) :
    Outbound config pools c pools' c' ∨ stepIn config pools c action = some (pools', c') := by
  rw [step] at h
  split at h
  · rename_i next hnext
    cases h
    exact .inl (stepOut_cases hnext)
  · exact .inr h

theorem step_flows (h : step config pools c action = some (pools', c')) (hflows : c.Flows config) :
    c'.Flows config ∧ c.Extends c' := by
  rcases step_cases h with hout | hin
  · exact ⟨hout.flows hflows, hout.extends hflows⟩
  · obtain ⟨-, reading, admitted, handlers, running, closed, rfl⟩ := stepIn_eq hin
    exact ⟨⟨hflows.sent, hflows.calls, hflows.senders, hflows.receiving, hflows.poisoned,
      hflows.stream.congr rfl rfl rfl rfl rfl rfl fun h => h⟩,
      List.prefix_refl _, List.prefix_refl _, fun h => ⟨h, rfl⟩, fun h => ⟨h, rfl⟩⟩

end Connection

/-! Every run. -/

namespace Server

variable {config : TransportConfig}

/-- The servers that a run can go through: every task may take its next step at any time. -/
def run (config : TransportConfig) (actions : List Action) : Server :=
  actions.foldl (step config) (new config)

/-- A step adds a connection, or is a step of one, or does nothing. -/
theorem step_eq (server : Server) (action : Action) :
    server.step config action = server ∨
    (server.active < config.maxConnections ∧ server.step config action =
      { server with connections := server.connections ++ [.new config] }) ∨
    ∃ i c pools c' connectionAction, server.connections[i]? = some c ∧
      c.step config server.pools connectionAction = some (pools, c') ∧
      server.step config action = ⟨pools, server.connections.set i c'⟩ := by
  cases action with
  | accept =>
    rw [step]
    split_ifs with hroom
    · exact .inr (.inl ⟨hroom, rfl⟩)
    · exact .inl rfl
  | on i connectionAction =>
    rw [step]
    split
    · exact .inl rfl
    · rename_i c hget
      split
      · exact .inl rfl
      · rename_i pools c' hstep
        exact .inr (.inr ⟨i, c, pools, c', connectionAction, hget, hstep, rfl⟩)

def Flows (config : TransportConfig) (server : Server) : Prop :=
  ∀ c ∈ server.connections, c.Flows config

theorem step_flows (server : Server) (action : Action) (h : server.Flows config) :
    (server.step config action).Flows config := by
  rcases step_eq server action with heq | ⟨-, heq⟩ | ⟨i, c, pools, c', connectionAction, hget, hstep, heq⟩
  · rwa [heq]
  · rw [heq]
    intro c hmem
    rcases List.mem_append.mp hmem with hmem | hmem
    · exact h c hmem
    · rw [List.mem_singleton.mp hmem]
      exact Connection.flows_new
  · rw [heq]
    intro d hmem
    rcases List.mem_or_eq_of_mem_set hmem with hmem | rfl
    · exact h d hmem
    · exact (Connection.step_flows hstep (h c (List.mem_of_getElem? hget))).1

theorem run_flows (actions : List Action) : (run config actions).Flows config :=
  Run.foldl_keeps step_flows actions _ fun _ h => absurd h List.not_mem_nil

/-- A connection stays where it is and is only continued. -/
theorem step_extends (server : Server) (action : Action) (h : server.Flows config) {i : ℕ}
    {c : Connection} (hget : server.connections[i]? = some c) :
    ∃ c', (server.step config action).connections[i]? = some c' ∧ c.Extends c' := by
  rcases step_eq server action with heq | ⟨-, heq⟩ | ⟨j, d, pools, d', connectionAction, hgetd, hstep, heq⟩
  · exact ⟨c, by rw [heq, hget], .refl c⟩
  · rw [heq]
    exact ⟨c, by rw [List.getElem?_append_left (List.getElem?_eq_some_iff.mp hget).1, hget], .refl c⟩
  · rw [heq]
    by_cases hij : j = i
    · subst hij
      cases hget.symm.trans hgetd
      exact ⟨d', List.getElem?_set_self (List.getElem?_eq_some_iff.mp hget).1,
        (Connection.step_flows hstep (h c (List.mem_of_getElem? hget))).2⟩
    · exact ⟨c, (List.getElem?_set_ne hij).trans hget, .refl c⟩

theorem foldl_extends (actions : List Action) (server : Server) (h : server.Flows config) {i : ℕ}
    {c : Connection} (hget : server.connections[i]? = some c) :
    ∃ c', (actions.foldl (step config) server).connections[i]? = some c' ∧ c.Extends c' := by
  have hstep : ∀ (s : Server) (action : Action),
      (s.Flows config ∧ ∃ c', s.connections[i]? = some c' ∧ c.Extends c') →
      ((s.step config action).Flows config ∧
        ∃ c', (s.step config action).connections[i]? = some c' ∧ c.Extends c') := by
    rintro s action ⟨hs, c', hget', hextends⟩
    obtain ⟨c'', hget'', hstep⟩ := step_extends s action hs hget'
    exact ⟨step_flows s action hs, c'', hget'', hextends.trans hstep⟩
  exact (Run.foldl_keeps hstep actions server ⟨h, c, hget, .refl c⟩).2

/-- On every connection of every run, what the peer has been sent is a first part of the frames of
the calls that succeeded, in the order in which they were queued: it reads them and nothing else,
with nothing between, up to where the stream is cut off. A later step only continues the stream, no
step does after the writer has ended, and a writer that came to the end of the queue has written all
of it. -/
theorem transport_stream (actions later : List Action) {i : ℕ} {c : Connection}
    (hget : (run config actions).connections[i]? = some c) :
    c.wire <+: c.sent.flatMap frameOf ∧
    (∃ count ending, parse config.maxFrameSize c.wire = (c.sent.take count, ending) ∧ ending.Cut ∧
      (ending = .closed ↔ c.wire = (c.sent.take count).flatMap frameOf)) ∧
    (c.drained = true → parse config.maxFrameSize c.wire = (c.sent, .closed)) ∧
    ∃ c', (run config (actions ++ later)).connections[i]? = some c' ∧ c.Extends c' := by
  have hflows : c.Flows config := run_flows actions c (List.mem_of_getElem? hget)
  have hwire := hflows.stream.wire_prefix
  refine ⟨hwire, parse_prefix c.sent c.wire hflows.sent hwire, fun hdrained => ?_, ?_⟩
  · rw [(hflows.stream.drained hdrained).2.1]
    exact parse_flatMap hflows.sent
  · rw [run, List.foldl_append]
    exact foldl_extends later _ (run_flows actions) hget

namespace TestVectors

/-- The writer fails after the first byte of the second payload; a third was queued. -/
def cutOff : List Action :=
  .accept ::
    ([[7], [8, 9], [10]].flatMap fun payload =>
      [.send payload, .reserve 0, .acquireBytes 0, .acquireAggregate 0, .enqueue 0]).map (.on 0) ++
    [.receive, .write 5, .finish, .receive, .write 5, .fail true].map (.on 0)

theorem transport_stream_cutOff :
    ∃ c, (run .default cutOff).connections[0]? = some c ∧ c.sent = [[7], [8, 9], [10]] ∧
      c.wire = [0, 0, 0, 1, 7, 0, 0, 0, 2, 8] ∧ c.wire <+: c.sent.flatMap frameOf := by
  refine ⟨_, rfl, by decide, by decide, ?_⟩
  exact (@transport_stream .default cutOff [] 0 _ rfl).1

end TestVectors

end Server

end Transport
