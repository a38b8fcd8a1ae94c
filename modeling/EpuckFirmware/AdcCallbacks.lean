import EpuckFirmware.CountingLoop

/-!
# The callbacks of the analog converters

A converter fills a buffer of `n` rows, each with a sample of every channel, and passes
it to a callback: `adc_cb` of `sensors/proximity.c` and `adc_motor_cb` of
`sensors/motor_current.c`. Both are to average the samples of each channel.

`adc_cb` does, for as many channels as its array of values has. `adc_motor_cb` takes the
number of rows for the number of samples: it averages the first half of the buffer, and
of a buffer of one row it divides by zero.
-/

namespace AdcCallbacks

open CountingLoop StepMachine

/-! ## The arrays -/

/-- What the language defines no result for, and `chSysHalt`. -/
inductive Fault
  | index (i : ℕ)
  | divisionByZero
  | halt
  deriving DecidableEq

/-- An array of `unsigned int`. -/
abbrev Values (m : ℕ) : Type := Vector (BitVec 32) m

/-- The samples of a buffer, `adcsample_t *`. -/
abbrev Samples : Type := List (BitVec 16)

/-- The value of a sample. -/
def Samples.value (samples : Samples) (k : ℕ) : ℕ := (samples.getD k 0).toNat

variable {m : ℕ}

/-- `values[i] = f(values[i]);` -/
def modify (values : Values m) (i : ℕ) (f : BitVec 32 → Except Fault (BitVec 32)) :
    Except Fault (Values m) :=
  if h : i < m then (f values[i]).map (fun x => values.set i x h) else .error (.index i)

/-- `acc + samples[k]` -/
def addSample (samples : Samples) (k : ℕ) (acc : BitVec 32) : Except Fault (BitVec 32) :=
  match samples[k]? with
  | some sample => .ok (acc + sample.setWidth 32)
  | none => .error (.index k)

/-- `x / n` -/
def divide (n : ℕ) (x : BitVec 32) : Except Fault (BitVec 32) :=
  if n = 0 then .error .divisionByZero else .ok (BitVec.ofNat 32 (x.toNat / n))

/-! ## The callbacks -/

/-- The loops of `adc_cb` over its array of values. -/
def averageRows (numChannels : ℕ) (samples : Samples) (n : ℕ) (values : Values m) :
    Except Fault (Values m) := do
  -- memset(values, 0, num_channels * sizeof(unsigned int));
  let values ← loop (fun values i => modify values i (fun _ => .ok 0)) 1 numChannels values
  let values ← loop (fun values j =>
    loop (fun values i => modify values i (addSample samples (numChannels * j + i)))
      1 numChannels values) 1 n values
  loop (fun values i => modify values i (divide n)) 1 numChannels values

/-- The converters, as `adc_cb` tells them apart. -/
inductive AdcDriver
  | adcd2
  | adcd3
  | other
  deriving DecidableEq

/-- `adc2_values` and `adc3_values`. -/
structure ProximityValues where
  adc2 : Values 1
  adc3 : Values 13

/-- The size of the array for the values of a converter. -/
def AdcDriver.capacity : AdcDriver → Option ℕ
  | .adcd2 => some 1
  | .adcd3 => some 13
  | .other => none

/-- The value of a channel. -/
def ProximityValues.get? (v : ProximityValues) : AdcDriver → ℕ → Option (BitVec 32)
  | .adcd2, c => v.adc2[c]?
  | .adcd3, c => v.adc3[c]?
  | .other, _ => none

/-- `adc_cb`. -/
def adcCb (adcp : AdcDriver) (numChannels : ℕ) (samples : Samples) (n : ℕ)
    (v : ProximityValues) : Except Fault ProximityValues :=
  match adcp with
  | .adcd3 => (averageRows numChannels samples n v.adc3).map (fun x => { v with adc3 := x })
  | .adcd2 => (averageRows numChannels samples n v.adc2).map (fun x => { v with adc2 := x })
  | .other => .error .halt

/-- `adc_motor_cb`: the contents of `motor_value`. -/
def adcMotorCb (samples : Samples) (n : ℕ) : Except Fault (Values 2) := do
  let accumulator ← loop (fun accumulator i => do
    let accumulator ← modify accumulator 0 (addSample samples i)
    modify accumulator 1 (addSample samples (i + 1))) 2 n #v[0, 0]
  let accumulator ← modify accumulator 0 (divide (n / 2))
  modify accumulator 1 (divide (n / 2))

/-! ## What they are to compute -/

/-- The sum of a channel over the first rows. -/
def Samples.columnSum (samples : Samples) (numChannels c rows : ℕ) : ℕ :=
  ∑ j ∈ Finset.range rows, samples.value (numChannels * j + c)

/-- **A buffer of `n` rows**, whose sums fit. -/
structure Buffer (numChannels n : ℕ) (samples : Samples) : Prop where
  length : samples.length = n * numChannels
  fits : ∀ c < numChannels, samples.columnSum numChannels c n < 2 ^ 32

/-- The value of each channel is the average of its samples. -/
def Averages (samples : Samples) (numChannels n : ℕ) (value : ℕ → Option (BitVec 32)) : Prop :=
  ∀ c < numChannels, ∃ x, value c = some x
    ∧ x.toNat = samples.columnSum numChannels c n / n

/-! ## Sums of a channel -/

theorem Samples.columnSum_succ (samples : Samples) (numChannels c rows : ℕ) :
    samples.columnSum numChannels c (rows + 1)
      = samples.columnSum numChannels c rows + samples.value (numChannels * rows + c) :=
  Finset.sum_range_succ _ _

@[simp] theorem Samples.columnSum_zero (samples : Samples) (numChannels c : ℕ) :
    samples.columnSum numChannels c 0 = 0 := Finset.sum_range_zero _

theorem Samples.columnSum_mono (samples : Samples) (numChannels c : ℕ) {rows rows' : ℕ}
    (h : rows ≤ rows') :
    samples.columnSum numChannels c rows ≤ samples.columnSum numChannels c rows' :=
  Finset.sum_le_sum_of_subset (Finset.range_mono h)

/-- Every row of a channel is in the buffer. -/
theorem Buffer.index_lt {numChannels n : ℕ} {samples : Samples} (h : Buffer numChannels n samples)
    {j c : ℕ} (hj : j < n) (hc : c < numChannels) : numChannels * j + c < samples.length := by
  have hrow : numChannels * (j + 1) ≤ numChannels * n := Nat.mul_le_mul_left _ hj
  rw [h.length, Nat.mul_comm n numChannels]
  rw [Nat.mul_succ] at hrow
  omega

/-- The sum over a part of the rows fits too. -/
theorem Buffer.columnSum_lt {numChannels n : ℕ} {samples : Samples}
    (h : Buffer numChannels n samples) {rows c : ℕ} (hrows : rows ≤ n) (hc : c < numChannels) :
    samples.columnSum numChannels c rows < 2 ^ 32 :=
  lt_of_le_of_lt (samples.columnSum_mono numChannels c hrows) (h.fits c hc)

/-! ## The statements of the loops -/

theorem modify_ok {values : Values m} {i : ℕ} {f : BitVec 32 → Except Fault (BitVec 32)}
    {x : BitVec 32} (h : i < m) (hf : f values[i] = .ok x) :
    modify values i f = .ok (values.set i x h) := by
  rw [modify, dif_pos h, hf]
  rfl

theorem modify_error {values : Values m} {i : ℕ} (f : BitVec 32 → Except Fault (BitVec 32))
    (h : m ≤ i) : modify values i f = .error (.index i) := dif_neg (by omega)

/-- **The next row of a channel is added** to the sum of the rows before it. -/
theorem addSample_ok {samples : Samples} {numChannels c rows : ℕ} {acc : BitVec 32}
    (hacc : acc.toNat = samples.columnSum numChannels c rows)
    (hindex : numChannels * rows + c < samples.length)
    (hfits : samples.columnSum numChannels c (rows + 1) < 2 ^ 32) :
    ∃ acc', addSample samples (numChannels * rows + c) acc = .ok acc'
      ∧ acc'.toNat = samples.columnSum numChannels c (rows + 1) := by
  have hsample : samples[numChannels * rows + c]? = some samples[numChannels * rows + c] :=
    List.getElem?_eq_getElem hindex
  have hvalue : samples.value (numChannels * rows + c)
      = samples[numChannels * rows + c].toNat := by
    rw [Samples.value, List.getD_eq_getElem?_getD, hsample]
    rfl
  refine ⟨acc + samples[numChannels * rows + c].setWidth 32, ?_, ?_⟩
  · rw [addSample, hsample]
  · rw [Samples.columnSum_succ, hvalue] at hfits ⊢
    have hlt := samples[numChannels * rows + c].isLt
    rw [BitVec.toNat_add, BitVec.toNat_setWidth, hacc]
    omega

theorem divide_ok {n : ℕ} (hn : n ≠ 0) (x : BitVec 32) :
    ∃ y, divide n x = .ok y ∧ y.toNat = x.toNat / n := by
  refine ⟨BitVec.ofNat 32 (x.toNat / n), if_neg hn, ?_⟩
  rw [BitVec.toNat_ofNat]
  exact Nat.mod_eq_of_lt (lt_of_le_of_lt (Nat.div_le_self _ _) x.isLt)

/-- The elements of an array below `count` satisfy `P`. -/
def Filled (P : ℕ → BitVec 32 → Prop) (count : ℕ) (values : Values m) : Prop :=
  ∀ i, (h : i < m) → i < count → P i values[i]

/-- The first elements of an array are replaced by ones that satisfy `P`. -/
structure Replacing (P : ℕ → BitVec 32 → Prop) (values : Values m) (count : ℕ)
    (values' : Values m) : Prop where
  filled : Filled P count values'
  rest : ∀ i, (h : i < m) → count ≤ i → values'[i] = values[i]

theorem Replacing.zero (P : ℕ → BitVec 32 → Prop) (values : Values m) :
    Replacing P values 0 values :=
  ⟨fun _ _ hi => absurd hi (Nat.not_lt_zero _), fun _ _ _ => rfl⟩

theorem Replacing.set {P : ℕ → BitVec 32 → Prop} {values values' : Values m} {k : ℕ}
    (h : Replacing P values k values') (hk : k < m) {x : BitVec 32} (hx : P k x) :
    Replacing P values (k + 1) (values'.set k x hk) := by
  refine ⟨fun i hi hik => ?_, fun i hi hik => ?_⟩
  · rw [Vector.getElem_set]
    split
    · subst k
      exact hx
    · exact h.filled i hi (by omega)
  · rw [Vector.getElem_set_ne _ _ (by omega)]
    exact h.rest i hi (by omega)

/-- **A loop over the first elements of an array** gives each of them what its statement
makes of it. -/
theorem loop_modify_ok {P : ℕ → BitVec 32 → Prop} {f : ℕ → BitVec 32 → Except Fault (BitVec 32)}
    {count : ℕ} (hcount : count ≤ m) {values : Values m}
    (hf : ∀ i, (h : i < m) → i < count → ∃ x, f i values[i] = .ok x ∧ P i x) :
    ∃ values', loop (fun values i => modify values i (f i)) 1 count values = .ok values'
      ∧ Filled P count values' := by
  have hturn : ∀ k < count, ∀ t, Replacing P values k t →
      ∃ t', modify t k (f k) = .ok t' ∧ Replacing P values (k + 1) t' := by
    intro k hk t ht
    have hkm : k < m := hk.trans_le hcount
    obtain ⟨x, hx, hP⟩ := hf k hkm hk
    rw [← ht.rest k hkm le_rfl] at hx
    exact ⟨t.set k x hkm, modify_ok hkm hx, ht.set hkm hP⟩
  obtain ⟨values', hloop, h⟩ := loop_one_ok (Replacing.zero P values) hturn
  exact ⟨values', hloop, h.filled⟩

/-! ## The proximity sensors -/

/-- The elements of the array are the sums of the channels over the first rows. -/
def Summed (numChannels : ℕ) (samples : Samples) (rows : ℕ) (values : Values m) : Prop :=
  Filled (fun i x => x.toNat = samples.columnSum numChannels i rows) numChannels values

/-- A row of the buffer is added. -/
theorem addRow_ok {numChannels n : ℕ} {samples : Samples} (hbuffer : Buffer numChannels n samples)
    (hle : numChannels ≤ m) {j : ℕ} (hj : j < n) {values : Values m}
    (h : Summed numChannels samples j values) :
    ∃ values', loop (fun values i => modify values i (addSample samples (numChannels * j + i)))
        1 numChannels values = .ok values'
      ∧ Summed numChannels samples (j + 1) values' :=
  loop_modify_ok hle (fun i hi hic =>
    addSample_ok (h i hi hic) (hbuffer.index_lt hj hic) (hbuffer.columnSum_lt hj hic))

/-- An array that is large enough gets the averages. -/
theorem averageRows_ok {numChannels n : ℕ} {samples : Samples} (hn : 1 ≤ n)
    (hbuffer : Buffer numChannels n samples) (hle : numChannels ≤ m) (values : Values m) :
    ∃ values', averageRows numChannels samples n values = .ok values'
      ∧ Averages samples numChannels n (fun c => values'[c]?) := by
  obtain ⟨cleared, hclear, hzero⟩ : ∃ cleared,
      loop (fun values i => modify values i (fun _ => .ok 0)) 1 numChannels values = .ok cleared
        ∧ Summed numChannels samples 0 cleared :=
    loop_modify_ok hle (fun i _ _ => ⟨0, rfl, (samples.columnSum_zero numChannels i).symm⟩)
  obtain ⟨summed, hsum, hsums⟩ := loop_one_ok hzero
    (fun j hj t (ht : Summed numChannels samples j t) => addRow_ok hbuffer hle hj ht)
  obtain ⟨values', hdiv, hquot⟩ : ∃ values',
      loop (fun values i => modify values i (divide n)) 1 numChannels summed = .ok values'
        ∧ Filled (fun i x => x.toNat = samples.columnSum numChannels i n / n)
            numChannels values' :=
    loop_modify_ok hle (fun i h hi => by
      rw [← hsums i h hi]
      exact divide_ok (Nat.ne_zero_of_lt hn) _)
  refine ⟨values', ?_, fun c hc => ?_⟩
  · rw [averageRows, hclear]
    show (loop _ 1 n cleared).bind _ = _
    rw [hsum]
    exact hdiv
  · have hcm : c < m := hc.trans_le hle
    exact ⟨values'[c], getElem?_pos values' c hcm, hquot c hcm hc⟩

/-- An array that is too small is overrun. -/
theorem averageRows_error {numChannels : ℕ} (samples : Samples) (n : ℕ) (hlt : m < numChannels)
    (values : Values m) : ∃ e, averageRows numChannels samples n values = .error e := by
  have hclear : ∃ e, loop (fun values i => modify values i (fun _ => .ok 0)) 1 numChannels values
      = .error e :=
    loop_one_error (Replacing.zero (fun _ x => x = 0) values) hlt
      (fun k hk t ht => ⟨t.set k 0 hk, modify_ok hk rfl, ht.set hk rfl⟩)
      (fun t _ => ⟨.index m, modify_error _ le_rfl⟩)
  obtain ⟨e, he⟩ := hclear
  refine ⟨e, ?_⟩
  rw [averageRows, he]
  rfl

/-- The loops of `adc_cb` compute the averages if the array is large enough. -/
theorem averageRows_iff {numChannels n : ℕ} {samples : Samples} (hn : 1 ≤ n)
    (hbuffer : Buffer numChannels n samples) (values : Values m) :
    (∃ values', averageRows numChannels samples n values = .ok values'
      ∧ Averages samples numChannels n (fun c => values'[c]?)) ↔ numChannels ≤ m := by
  constructor
  · rintro ⟨values', hrun, -⟩
    by_contra hlt
    obtain ⟨e, he⟩ := averageRows_error samples n (Nat.lt_of_not_le hlt) values
    rw [he] at hrun
    cases hrun
  · intro hle
    exact averageRows_ok hn hbuffer hle values

/-- `adc_cb` stores the averages. -/
def ProximityAverages (adcp : AdcDriver) (numChannels : ℕ) (samples : Samples) (n : ℕ)
    (v : ProximityValues) : Prop :=
  ∃ v', adcCb adcp numChannels samples n v = .ok v'
    ∧ Averages samples numChannels n (v'.get? adcp)

theorem AdcDriver.exists_capacity_iff {adcp : AdcDriver} {size numChannels : ℕ}
    (h : adcp.capacity = some size) :
    (∃ size, adcp.capacity = some size ∧ numChannels ≤ size) ↔ numChannels ≤ size := by
  rw [h]
  constructor
  · rintro ⟨size', hsize, hle⟩
    cases hsize
    exact hle
  · intro hle
    exact ⟨size, rfl, hle⟩

/-- `adc_cb` stores the averages when the array of the converter has as many values. -/
theorem proximityAverages_iff {adcp : AdcDriver} {numChannels n : ℕ} {samples : Samples}
    (hn : 1 ≤ n) (hbuffer : Buffer numChannels n samples) (v : ProximityValues) :
    ProximityAverages adcp numChannels samples n v
      ↔ ∃ size, adcp.capacity = some size ∧ numChannels ≤ size := by
  cases adcp with
  | adcd2 =>
    rw [AdcDriver.exists_capacity_iff rfl, ← averageRows_iff hn hbuffer v.adc2]
    constructor
    · rintro ⟨v', hrun, haverages⟩
      obtain ⟨values', hrows, rfl⟩ := map_eq_ok hrun
      exact ⟨values', hrows, haverages⟩
    · rintro ⟨values', hrows, haverages⟩
      exact ⟨{ v with adc2 := values' }, congrArg (Except.map _) hrows, haverages⟩
  | adcd3 =>
    rw [AdcDriver.exists_capacity_iff rfl, ← averageRows_iff hn hbuffer v.adc3]
    constructor
    · rintro ⟨v', hrun, haverages⟩
      obtain ⟨values', hrows, rfl⟩ := map_eq_ok hrun
      exact ⟨values', hrows, haverages⟩
    · rintro ⟨values', hrows, haverages⟩
      exact ⟨{ v with adc3 := values' }, congrArg (Except.map _) hrows, haverages⟩
  | other =>
    constructor
    · rintro ⟨v', hrun, -⟩
      cases hrun
    · rintro ⟨size, hsize, -⟩
      cases hsize

/-! ## The motor currents -/

/-- `adc_motor_cb` stores the averages of the two channels. -/
def MotorAverages (samples : Samples) (n : ℕ) : Prop :=
  ∃ values, adcMotorCb samples n = .ok values ∧ Averages samples 2 n (fun c => values[c]?)

/-- A statement for each of the two accumulators. -/
theorem modify_pair_ok {P : ℕ → BitVec 32 → Prop} {f g : BitVec 32 → Except Fault (BitVec 32)}
    {t : Values 2} (hf : ∃ x, f t[0] = .ok x ∧ P 0 x) (hg : ∃ y, g t[1] = .ok y ∧ P 1 y) :
    ∃ t', (modify t 0 f).bind (fun t => modify t 1 g) = .ok t' ∧ Filled P 2 t' := by
  obtain ⟨x, hx, hPx⟩ := hf
  obtain ⟨y, hy, hPy⟩ := hg
  refine ⟨(t.set 0 x).set 1 y, ?_, fun c hc _ => ?_⟩
  · rw [modify_ok Nat.two_pos hx]
    refine modify_ok Nat.one_lt_two ?_
    rw [Vector.getElem_set_ne _ _ (by decide)]
    exact hy
  · obtain rfl | rfl : c = 0 ∨ c = 1 := by omega
    · rw [Vector.getElem_set_ne _ _ (by decide), Vector.getElem_set_self]
      exact hPx
    · rw [Vector.getElem_set_self]
      exact hPy

/-- **A turn of the loop** adds the row that its index is in. -/
theorem addPair_ok {samples : Samples} {n : ℕ} (hbuffer : Buffer 2 n samples) {k : ℕ}
    (hk : k < n) {t : Values 2} (h : Summed 2 samples k t) :
    ∃ t', (modify t 0 (addSample samples (2 * k))).bind
        (fun t => modify t 1 (addSample samples (2 * k + 1))) = .ok t'
      ∧ Summed 2 samples (k + 1) t' :=
  modify_pair_ok
    (addSample_ok (h 0 Nat.two_pos Nat.two_pos) (hbuffer.index_lt hk Nat.two_pos)
      (hbuffer.columnSum_lt hk Nat.two_pos))
    (addSample_ok (h 1 Nat.one_lt_two Nat.one_lt_two) (hbuffer.index_lt hk Nat.one_lt_two)
      (hbuffer.columnSum_lt hk Nat.one_lt_two))

/-- The loop sums up the first half of the rows. -/
theorem motorLoop_ok {samples : Samples} {n : ℕ} (hbuffer : Buffer 2 n samples) :
    ∃ accumulator, loop (fun accumulator i => do
        let accumulator ← modify accumulator 0 (addSample samples i)
        modify accumulator 1 (addSample samples (i + 1))) 2 n #v[0, 0] = .ok accumulator
      ∧ Summed 2 samples (turns 2 n) accumulator := by
  have hinit : Summed 2 samples 0 #v[0, 0] := by
    intro c hc _
    rw [Samples.columnSum_zero]
    obtain rfl | rfl : c = 0 ∨ c = 1 := by omega
    · rfl
    · rfl
  exact loop_ok Nat.two_pos hinit (fun k hk t ht => addPair_ok hbuffer (by omega) ht)

/-- **What `adc_motor_cb` computes** of more than one row: the sums over the first half
of the rows, rounded up, by half of their number, rounded down. -/
theorem adcMotorCb_ok {samples : Samples} {n : ℕ} (hn : 2 ≤ n) (hbuffer : Buffer 2 n samples) :
    ∃ values, adcMotorCb samples n = .ok values
      ∧ Filled (fun c x => x.toNat = samples.columnSum 2 c ((n + 1) / 2) / (n / 2)) 2 values := by
  obtain ⟨accumulator, hloop, hsum⟩ := motorLoop_ok hbuffer
  have hdiv : ∀ c, (h : c < 2) → ∃ x, divide (n / 2) accumulator[c] = .ok x
      ∧ x.toNat = samples.columnSum 2 c ((n + 1) / 2) / (n / 2) := by
    intro c hc
    have hturns : accumulator[c].toNat = samples.columnSum 2 c ((n + 1) / 2) := hsum c hc hc
    rw [← hturns]
    exact divide_ok (by omega) _
  rw [adcMotorCb, hloop]
  exact modify_pair_ok (hdiv 0 Nat.two_pos) (hdiv 1 Nat.one_lt_two)

/-- Of one row it computes nothing. -/
theorem adcMotorCb_error {samples : Samples} (hbuffer : Buffer 2 1 samples) :
    adcMotorCb samples 1 = .error .divisionByZero := by
  obtain ⟨accumulator, hloop, -⟩ := motorLoop_ok hbuffer
  rw [adcMotorCb, hloop]
  rfl

/-- The first half of the rows of a channel has the average of all, as `adc_motor_cb`
takes it. -/
def HalfAverages (samples : Samples) (n c : ℕ) : Prop :=
  n / 2 * (samples.columnSum 2 c n / n) ≤ samples.columnSum 2 c ((n + 1) / 2)
    ∧ samples.columnSum 2 c ((n + 1) / 2) < n / 2 * (samples.columnSum 2 c n / n + 1)

instance (samples : Samples) (n c : ℕ) : Decidable (HalfAverages samples n c) :=
  inferInstanceAs (Decidable (_ ∧ _))

/-- `adc_motor_cb` stores the averages of several rows whose first half has them. -/
theorem motorAverages_iff {samples : Samples} {n : ℕ} (hn : 1 ≤ n) (hbuffer : Buffer 2 n samples) :
    MotorAverages samples n ↔ 2 ≤ n ∧ ∀ c < 2, HalfAverages samples n c := by
  rcases Nat.eq_or_lt_of_le hn with rfl | hn2
  · constructor
    · rintro ⟨values, hrun, -⟩
      rw [adcMotorCb_error hbuffer] at hrun
      cases hrun
    · rintro ⟨hle, -⟩
      exact absurd hle (by decide)
  · obtain ⟨values, hrun, hvalues⟩ := adcMotorCb_ok hn2 hbuffer
    have hquot : ∀ c, (h : c < 2) →
        (values[c].toNat = samples.columnSum 2 c n / n ↔ HalfAverages samples n c) := by
      intro c hc
      have hhalf : 0 < n / 2 := by omega
      rw [hvalues c hc hc, Nat.div_eq_iff hhalf, HalfAverages, Nat.mul_succ,
        Nat.mul_comm (n / 2)]
      omega
    constructor
    · rintro ⟨values', hrun', haverages⟩
      rw [hrun] at hrun'
      cases hrun'
      refine ⟨hn2, fun c hc => ?_⟩
      obtain ⟨x, hx, hxavg⟩ := haverages c hc
      have hvalue : values[c] = x := Option.some.inj ((getElem?_pos values c hc).symm.trans hx)
      rw [← hvalue] at hxavg
      exact (hquot c hc).mp hxavg
    · rintro ⟨-, hhalf⟩
      refine ⟨values, hrun, fun c hc => ?_⟩
      exact ⟨values[c], getElem?_pos values c hc, (hquot c hc).mpr (hhalf c hc)⟩

end AdcCallbacks
