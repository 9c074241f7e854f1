import Reframe.Lib.Run
import Reframe.Transport.FrameReader

/-! The limits of the transport and the calls that change them. Whatever calls made a configuration,
every byte budget has room for a frame of the largest size. -/
namespace Transport

def defaultMaxFrameSize : ℕ := 8 * 1024 * 1024
def defaultOutboundCapacity : ℕ := 64
def defaultOutboundByteBudget : ℕ := defaultMaxFrameSize
def defaultAggregateOutboundByteBudget : ℕ := maxFrameSize
def defaultInboundByteBudget : ℕ := maxFrameSize
def defaultMaxInFlight : ℕ := 64
def defaultMaxConnections : ℕ := 128
def maxOutboundCapacity : ℕ := 4096
def maxInFlightLimit : ℕ := 4096
def maxConnectionsLimit : ℕ := 4096

/-- Durations are in nanoseconds. -/
def defaultReadTimeout : ℕ := 30 * 10 ^ 9
def defaultWriteTimeout : ℕ := 30 * 10 ^ 9
def defaultHandlerDrainTimeout : ℕ := 30 * 10 ^ 9

/-- `Semaphore::MAX_PERMITS` is `usize::MAX >> 3`. -/
def maxPermits : ℕ := (2 ^ 64 - 1) / 2 ^ 3

structure TransportConfig where
  maxFrameSize : ℕ
  outboundCapacity : ℕ
  outboundByteBudget : ℕ
  aggregateOutboundByteBudget : ℕ
  inboundByteBudget : ℕ
  maxInFlight : ℕ
  maxConnections : ℕ
  readTimeout : ℕ
  writeTimeout : ℕ
  handlerDrainTimeout : ℕ
  deriving DecidableEq, Repr

inductive ConfigError where
  | maxFrameSize (actual maximum : ℕ)
  | outboundCapacity (actual maximum : ℕ)
  | outboundByteBudget (actual minimum maximum : ℕ)
  | aggregateOutboundByteBudget (actual minimum maximum : ℕ)
  | inboundByteBudget (actual minimum maximum : ℕ)
  | maxInFlight (actual maximum : ℕ)
  | maxConnections (actual maximum : ℕ)
  | timeout (name : String)
  deriving DecidableEq, Repr

/-! The checks: of a number from one on, of a byte budget, of a duration. -/

def validateCount (error : ℕ → ℕ → ConfigError) (maximum value : ℕ) : Except ConfigError Unit :=
  if value = 0 ∨ maximum < value then .error (error value maximum) else .ok ()

def validateBudget (error : ℕ → ℕ → ℕ → ConfigError) (value minimum : ℕ) :
    Except ConfigError Unit :=
  if value < minimum ∨ maxPermits < value then .error (error value minimum maxPermits) else .ok ()

/-- `clock` is `Instant::now().checked_add(..)`. -/
def validateTimeout (clock : ℕ → Option ℕ) (name : String) (value : ℕ) : Except ConfigError Unit :=
  if value = 0 ∨ (clock value).isNone then .error (.timeout name) else .ok ()

def validateMaxFrameSize : ℕ → Except ConfigError Unit :=
  validateCount .maxFrameSize (min maxFrameSize maxPermits)

def validateOutboundCapacity : ℕ → Except ConfigError Unit :=
  validateCount .outboundCapacity maxOutboundCapacity

def validateMaxInFlight : ℕ → Except ConfigError Unit := validateCount .maxInFlight maxInFlightLimit

def validateMaxConnections : ℕ → Except ConfigError Unit :=
  validateCount .maxConnections maxConnectionsLimit

def validateOutboundByteBudget : ℕ → ℕ → Except ConfigError Unit :=
  validateBudget .outboundByteBudget

def validateAggregateOutboundByteBudget : ℕ → ℕ → Except ConfigError Unit :=
  validateBudget .aggregateOutboundByteBudget

def validateInboundByteBudget : ℕ → ℕ → Except ConfigError Unit := validateBudget .inboundByteBudget

namespace TransportConfig

def default : TransportConfig where
  maxFrameSize := defaultMaxFrameSize
  outboundCapacity := defaultOutboundCapacity
  outboundByteBudget := defaultOutboundByteBudget
  aggregateOutboundByteBudget := defaultAggregateOutboundByteBudget
  inboundByteBudget := defaultInboundByteBudget
  maxInFlight := defaultMaxInFlight
  maxConnections := defaultMaxConnections
  readTimeout := defaultReadTimeout
  writeTimeout := defaultWriteTimeout
  handlerDrainTimeout := defaultHandlerDrainTimeout

def new (maxFrameSize outboundCapacity maxInFlight maxConnections : ℕ) :
    Except ConfigError TransportConfig := do
  validateMaxFrameSize maxFrameSize
  validateOutboundCapacity outboundCapacity
  validateMaxInFlight maxInFlight
  validateMaxConnections maxConnections
  .ok { default with
    maxFrameSize := maxFrameSize
    outboundCapacity := outboundCapacity
    outboundByteBudget := maxFrameSize
    maxInFlight := maxInFlight
    maxConnections := maxConnections }

/-! The calls on a configuration, `with_max_frame_size` and so on. -/

def withMaxFrameSize (config : TransportConfig) (value : ℕ) : Except ConfigError TransportConfig := do
  validateMaxFrameSize value
  .ok { config with
    maxFrameSize := value
    outboundByteBudget := max config.outboundByteBudget value
    aggregateOutboundByteBudget := max config.aggregateOutboundByteBudget value
    inboundByteBudget := max config.inboundByteBudget value }

def withOutboundCapacity (config : TransportConfig) (value : ℕ) :
    Except ConfigError TransportConfig := do
  validateOutboundCapacity value
  .ok { config with outboundCapacity := value }

def withOutboundByteBudget (config : TransportConfig) (value : ℕ) :
    Except ConfigError TransportConfig := do
  validateOutboundByteBudget value config.maxFrameSize
  .ok { config with outboundByteBudget := value }

def withAggregateOutboundByteBudget (config : TransportConfig) (value : ℕ) :
    Except ConfigError TransportConfig := do
  validateAggregateOutboundByteBudget value config.maxFrameSize
  .ok { config with aggregateOutboundByteBudget := value }

def withInboundByteBudget (config : TransportConfig) (value : ℕ) :
    Except ConfigError TransportConfig := do
  validateInboundByteBudget value config.maxFrameSize
  .ok { config with inboundByteBudget := value }

def withMaxInFlight (config : TransportConfig) (value : ℕ) : Except ConfigError TransportConfig := do
  validateMaxInFlight value
  .ok { config with maxInFlight := value }

def withMaxConnections (config : TransportConfig) (value : ℕ) :
    Except ConfigError TransportConfig := do
  validateMaxConnections value
  .ok { config with maxConnections := value }

section

variable (clock : ℕ → Option ℕ)

def withReadTimeout (config : TransportConfig) (value : ℕ) : Except ConfigError TransportConfig := do
  validateTimeout clock "read timeout" value
  .ok { config with readTimeout := value }

def withWriteTimeout (config : TransportConfig) (value : ℕ) :
    Except ConfigError TransportConfig := do
  validateTimeout clock "write timeout" value
  .ok { config with writeTimeout := value }

def withHandlerDrainTimeout (config : TransportConfig) (value : ℕ) :
    Except ConfigError TransportConfig := do
  validateTimeout clock "handler drain timeout" value
  .ok { config with handlerDrainTimeout := value }

/-- A call on a configuration. -/
inductive Setting where
  | maxFrameSize (value : ℕ)
  | outboundCapacity (value : ℕ)
  | outboundByteBudget (value : ℕ)
  | aggregateOutboundByteBudget (value : ℕ)
  | inboundByteBudget (value : ℕ)
  | maxInFlight (value : ℕ)
  | maxConnections (value : ℕ)
  | readTimeout (value : ℕ)
  | writeTimeout (value : ℕ)
  | handlerDrainTimeout (value : ℕ)
  deriving DecidableEq, Repr

def apply (config : TransportConfig) : Setting → Except ConfigError TransportConfig
  | .maxFrameSize value => config.withMaxFrameSize value
  | .outboundCapacity value => config.withOutboundCapacity value
  | .outboundByteBudget value => config.withOutboundByteBudget value
  | .aggregateOutboundByteBudget value => config.withAggregateOutboundByteBudget value
  | .inboundByteBudget value => config.withInboundByteBudget value
  | .maxInFlight value => config.withMaxInFlight value
  | .maxConnections value => config.withMaxConnections value
  | .readTimeout value => config.withReadTimeout clock value
  | .writeTimeout value => config.withWriteTimeout clock value
  | .handlerDrainTimeout value => config.withHandlerDrainTimeout clock value

/-- What `default` or `new` and calls on it can make. -/
def Built (config : TransportConfig) : Prop :=
  ∃ (first : TransportConfig) (settings : List Setting), (first = default ∨ ∃ maxFrameSize outboundCapacity maxInFlight maxConnections,
      new maxFrameSize outboundCapacity maxInFlight maxConnections = .ok first) ∧
    settings.foldlM (apply clock) first = .ok config

end

/-- The frame limit and the budgets, which have room for a frame of the largest size. -/
structure Sound (config : TransportConfig) : Prop where
  frame : 0 < config.maxFrameSize ∧ config.maxFrameSize ≤ Transport.maxFrameSize
  capacity : 0 < config.outboundCapacity
  outbound : config.maxFrameSize ≤ config.outboundByteBudget
  aggregate : config.maxFrameSize ≤ config.aggregateOutboundByteBudget
  inbound : config.maxFrameSize ≤ config.inboundByteBudget
  permits : config.outboundByteBudget ≤ maxPermits ∧
    config.aggregateOutboundByteBudget ≤ maxPermits ∧ config.inboundByteBudget ≤ maxPermits
  inFlight : 0 < config.maxInFlight ∧ config.maxInFlight ≤ maxInFlightLimit
  connections : 0 < config.maxConnections ∧ config.maxConnections ≤ maxConnectionsLimit

theorem validateCount_eq_ok {error : ℕ → ℕ → ConfigError} {maximum value : ℕ} :
    validateCount error maximum value = .ok () ↔ 0 < value ∧ value ≤ maximum := by
  rw [validateCount]
  split_ifs with h
  · exact iff_of_false (fun hok => by cases hok) (by omega)
  · exact iff_of_true rfl (by omega)

theorem validateBudget_eq_ok {error : ℕ → ℕ → ℕ → ConfigError} {minimum value : ℕ} :
    validateBudget error value minimum = .ok () ↔ minimum ≤ value ∧ value ≤ maxPermits := by
  rw [validateBudget]
  split_ifs with h
  · exact iff_of_false (fun hok => by cases hok) (by omega)
  · exact iff_of_true rfl (by omega)

theorem maxFrameSize_le_maxPermits : Transport.maxFrameSize ≤ maxPermits := by decide

theorem sound_default : default.Sound := by
  refine ⟨by decide, by decide, by decide, by decide, by decide, by decide, by decide, by decide⟩

theorem sound_new {maxFrameSize outboundCapacity maxInFlight maxConnections : ℕ}
    {config : TransportConfig}
    (h : new maxFrameSize outboundCapacity maxInFlight maxConnections = .ok config) :
    config.Sound := by
  obtain ⟨⟨⟩, hframe, h⟩ := Run.bind_ok.mp h
  obtain ⟨⟨⟩, hcapacity, h⟩ := Run.bind_ok.mp h
  obtain ⟨⟨⟩, hinFlight, h⟩ := Run.bind_ok.mp h
  obtain ⟨⟨⟩, hconnections, h⟩ := Run.bind_ok.mp h
  cases h
  obtain ⟨hpos, hle⟩ := validateCount_eq_ok.mp hframe
  have hframeLe := hle.trans (min_le_left _ _)
  exact ⟨⟨hpos, hframeLe⟩, (validateCount_eq_ok.mp hcapacity).1, le_refl _, hframeLe, hframeLe,
    ⟨hle.trans (min_le_right _ _), maxFrameSize_le_maxPermits, maxFrameSize_le_maxPermits⟩,
    validateCount_eq_ok.mp hinFlight, validateCount_eq_ok.mp hconnections⟩

/-- Every call that succeeds leaves a sound configuration sound. -/
theorem Sound.apply {clock : ℕ → Option ℕ} {config config' : TransportConfig} (h : config.Sound)
    (setting : Setting) (happly : config.apply clock setting = .ok config') : config'.Sound := by
  cases setting with
  | maxFrameSize value =>
    obtain ⟨⟨⟩, hvalid, happly⟩ := Run.bind_ok.mp happly
    cases happly
    obtain ⟨hpos, hle⟩ := validateCount_eq_ok.mp hvalid
    have hpermits := hle.trans (min_le_right _ _)
    exact ⟨⟨hpos, hle.trans (min_le_left _ _)⟩, h.capacity, le_max_right _ _, le_max_right _ _,
      le_max_right _ _, ⟨max_le h.permits.1 hpermits, max_le h.permits.2.1 hpermits,
        max_le h.permits.2.2 hpermits⟩, h.inFlight, h.connections⟩
  | outboundCapacity value =>
    obtain ⟨⟨⟩, hvalid, happly⟩ := Run.bind_ok.mp happly
    cases happly
    exact ⟨h.frame, (validateCount_eq_ok.mp hvalid).1, h.outbound, h.aggregate, h.inbound, h.permits,
      h.inFlight, h.connections⟩
  | outboundByteBudget value =>
    obtain ⟨⟨⟩, hvalid, happly⟩ := Run.bind_ok.mp happly
    cases happly
    obtain ⟨hmin, hmax⟩ := validateBudget_eq_ok.mp hvalid
    exact ⟨h.frame, h.capacity, hmin, h.aggregate, h.inbound, ⟨hmax, h.permits.2⟩, h.inFlight,
      h.connections⟩
  | aggregateOutboundByteBudget value =>
    obtain ⟨⟨⟩, hvalid, happly⟩ := Run.bind_ok.mp happly
    cases happly
    obtain ⟨hmin, hmax⟩ := validateBudget_eq_ok.mp hvalid
    exact ⟨h.frame, h.capacity, h.outbound, hmin, h.inbound, ⟨h.permits.1, hmax, h.permits.2.2⟩,
      h.inFlight, h.connections⟩
  | inboundByteBudget value =>
    obtain ⟨⟨⟩, hvalid, happly⟩ := Run.bind_ok.mp happly
    cases happly
    obtain ⟨hmin, hmax⟩ := validateBudget_eq_ok.mp hvalid
    exact ⟨h.frame, h.capacity, h.outbound, h.aggregate, hmin,
      ⟨h.permits.1, h.permits.2.1, hmax⟩, h.inFlight, h.connections⟩
  | maxInFlight value =>
    obtain ⟨⟨⟩, hvalid, happly⟩ := Run.bind_ok.mp happly
    cases happly
    exact ⟨h.frame, h.capacity, h.outbound, h.aggregate, h.inbound, h.permits,
      validateCount_eq_ok.mp hvalid, h.connections⟩
  | maxConnections value =>
    obtain ⟨⟨⟩, hvalid, happly⟩ := Run.bind_ok.mp happly
    cases happly
    exact ⟨h.frame, h.capacity, h.outbound, h.aggregate, h.inbound, h.permits, h.inFlight,
      validateCount_eq_ok.mp hvalid⟩
  | readTimeout value =>
    obtain ⟨⟨⟩, -, happly⟩ := Run.bind_ok.mp happly
    cases happly
    exact ⟨h.frame, h.capacity, h.outbound, h.aggregate, h.inbound, h.permits, h.inFlight,
      h.connections⟩
  | writeTimeout value =>
    obtain ⟨⟨⟩, -, happly⟩ := Run.bind_ok.mp happly
    cases happly
    exact ⟨h.frame, h.capacity, h.outbound, h.aggregate, h.inbound, h.permits, h.inFlight,
      h.connections⟩
  | handlerDrainTimeout value =>
    obtain ⟨⟨⟩, -, happly⟩ := Run.bind_ok.mp happly
    cases happly
    exact ⟨h.frame, h.capacity, h.outbound, h.aggregate, h.inbound, h.permits, h.inFlight,
      h.connections⟩

theorem Built.sound {clock : ℕ → Option ℕ} {config : TransportConfig} (h : Built clock config) :
    config.Sound := by
  obtain ⟨first, settings, hfirst, hsettings⟩ := h
  have hsound : first.Sound := by
    rcases hfirst with rfl | ⟨_, _, _, _, hnew⟩
    · exact sound_default
    · exact sound_new hnew
  clear hfirst
  induction settings generalizing first with
  | nil =>
    cases hsettings
    exact hsound
  | cons setting settings ih =>
    rw [List.foldlM_cons] at hsettings
    obtain ⟨next, hnext, hsettings⟩ := Run.bind_ok.mp hsettings
    exact ih next hsettings (hsound.apply setting hnext)

end TransportConfig

end Transport
