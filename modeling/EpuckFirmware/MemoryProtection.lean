import EpuckFirmware.History

/-!
# Memory protection

The memory protection unit decides about an access by the region with the highest number
that contains the address, and without one by the default map of the memory. The driver packs
the settings of a region into two registers, from which the unit reads them again.

At the start the firmware denies all accesses to the first bytes of the memory and forbids to
execute the RAM. At every context switch it moves a guard to the end of the stack of the
thread that follows.
-/

namespace MemoryProtection

open StepMachine History

/-! ## The unit -/

/-- `access_permission_t`. -/
inductive AccessPermission
  | noNo
  | rwNo
  | rwRo
  | rwRw
  | reserved
  | roNo
  | roRo
  deriving DecidableEq

/-- The value of the enumerator. -/
def AccessPermission.toNat : AccessPermission → ℕ
  | noNo => 0
  | rwNo => 1
  | rwRo => 2
  | rwRw => 3
  | reserved => 4
  | roNo => 5
  | roRo => 6

inductive AccessKind
  | read
  | write
  | execute
  deriving DecidableEq

/-- An access to the memory. -/
structure Access where
  kind : AccessKind
  privileged : Bool
  deriving DecidableEq

/-- The registers of a region. -/
structure Region where
  /-- The base address, in the upper 27 bits. -/
  rbar : BitVec 32
  rasr : BitVec 32
  deriving DecidableEq

/-- The registers of the unit. -/
structure Mpu where
  ctrl : BitVec 32
  /-- The number of the region that `RASR` belongs to. -/
  rnr : BitVec 4
  regions : BitVec 4 → Region

def Region.enabled (r : Region) : Bool := r.rasr.getLsbD 0

/-- The number of the upper bits that an address of the region has in common with the base
address: all but as many as `SIZE` says, and one more. -/
def Region.sizeBits (r : Region) : ℕ := (r.rasr.extractLsb' 1 5).toNat + 1

/-- `AP`. -/
def Region.ap (r : Region) : ℕ := (r.rasr.extractLsb' 24 3).toNat

/-- `XN`. -/
def Region.executeNever (r : Region) : Bool := r.rasr.getLsbD 28

/-- The address is in the region. -/
def Region.Contains (r : Region) (addr : BitVec 32) : Prop :=
  r.enabled = true ∧ addr >>> r.sizeBits = r.rbar >>> r.sizeBits

instance (r : Region) (addr : BitVec 32) : Decidable (r.Contains addr) :=
  inferInstanceAs (Decidable (_ ∧ _))

/-- What an access permission grants. -/
def grants (ap : ℕ) (write privileged : Bool) : Bool :=
  match ap, privileged with
  | 1, true => true
  | 2, true => true
  | 2, false => !write
  | 3, _ => true
  | 5, true => !write
  | 6, _ => !write
  | _, _ => false

/-- The region grants the access. An instruction is fetched from where it can be read. -/
def Region.grants (r : Region) (a : Access) : Bool :=
  MemoryProtection.grants r.ap (a.kind = .write) a.privileged
    && (a.kind ≠ .execute || !r.executeNever)

/-- The region that decides about an address: the one with the highest number. -/
def Mpu.deciding (m : Mpu) (addr : BitVec 32) : Option Region :=
  (([7, 6, 5, 4, 3, 2, 1, 0] : List (BitVec 4)).map m.regions).find? (fun r => r.Contains addr)

/-- `MPU_CTRL_ENABLE_Msk` is set. -/
def Mpu.enabled (m : Mpu) : Bool := m.ctrl.getLsbD 0

/-- `MPU_CTRL_PRIVDEFENA_Msk` is set. -/
def Mpu.privdefena (m : Mpu) : Bool := m.ctrl.getLsbD 2

/-- **Whether an access is allowed**, given the default map of the memory. -/
def Mpu.allows (m : Mpu) (defaultMap : BitVec 32 → Access → Bool) (addr : BitVec 32)
    (a : Access) : Bool :=
  if m.enabled then
    match m.deciding addr with
    | some r => r.grants a
    | none => a.privileged && m.privdefena && defaultMap addr a
  else defaultMap addr a

/-- A write to `RBAR`: with the bit `VALID` it selects the region. -/
def Mpu.writeRbar (m : Mpu) (value : BitVec 32) : Mpu :=
  let number := if value.getLsbD 4 then value.setWidth 4 else m.rnr
  { m with
    rnr := number
    regions := Function.update m.regions number
      { m.regions number with rbar := value &&& 0xFFFFFFE0#32 } }

/-- A write to `RASR`. -/
def Mpu.writeRasr (m : Mpu) (value : BitVec 32) : Mpu :=
  { m with regions := Function.update m.regions m.rnr { m.regions m.rnr with rasr := value } }

/-- The registers after a reset. -/
def Mpu.reset : Mpu where
  ctrl := 0
  rnr := 0
  regions := fun _ => ⟨0, 0⟩

/-! ## The driver -/

/-- Why the driver halts the system. -/
inductive Halt
  /-- `region too small` -/
  | regionTooSmall
  deriving DecidableEq

def mpuEnable (m : Mpu) : Mpu := { m with ctrl := m.ctrl ||| 1 }

def mpuDisable (m : Mpu) : Mpu := { m with ctrl := m.ctrl &&& ~~~1 }

/-- The value of `RASR` in `mpu_configure_region`. -/
def rasrOf (len : BitVec 32) (ap : AccessPermission) (executable : Bool) : BitVec 32 :=
  let rasr := 0
  let rasr := if !executable then rasr + 1 <<< 28 else rasr
  let rasr := rasr + BitVec.ofNat 32 ap.toNat <<< 24
  let rasr := rasr + (len - 1) <<< 1
  rasr + 1

def mpuConfigureRegion (m : Mpu) (region addr len : BitVec 32) (ap : AccessPermission)
    (executable : Bool) : Except Halt Mpu :=
  if len ≥ 5 then
    let region := region &&& 0xF#32
    let addr := addr &&& 0xFFFFFFE0#32
    .ok ((m.writeRbar (addr + region + 0x10#32)).writeRasr (rasrOf len ap executable))
  else .error .regionTooSmall

/-- `mpu_init`. The memory faults that it enables besides are those of the unit. -/
def mpuInit (m : Mpu) : Except Halt Mpu :=
  match mpuConfigureRegion { m with ctrl := m.ctrl ||| 4 } 7 0 5 .noNo false with
  | .error e => .error e
  | .ok m =>
    match mpuConfigureRegion m 0 0x20000000 29 .rwRw false with
    | .error e => .error e
    | .ok m => .ok (mpuEnable m)

/-- `context_switch_hook`, where `thread_t` has the given size. -/
def contextSwitchHook (mainthread sizeofThread : BitVec 32) (m : Mpu) (ntp : BitVec 32) :
    Except Halt Mpu :=
  if ntp = mainthread then .ok m
  else mpuConfigureRegion m 6 (ntp + sizeofThread + 32) 5 .noNo false

/-! ## Packing the settings -/

/-- The mask of the base address takes the address down to a multiple of 32. -/
theorem toNat_and_mask (x : BitVec 32) : (x &&& 0xFFFFFFE0#32).toNat = x.toNat / 32 * 32 := by
  have hmask : ∀ i : Fin 32, (0xFFFFFFE0#32).getLsbD i = decide (5 ≤ i.val) := by decide
  have hshift : x &&& 0xFFFFFFE0#32 = (x >>> 5) <<< 5 := by
    refine BitVec.eq_of_getLsbD_eq (fun i hi => ?_)
    rw [BitVec.getLsbD_and, hmask ⟨i, hi⟩, BitVec.getLsbD_shiftLeft, BitVec.getLsbD_ushiftRight]
    by_cases hlow : i < 5
    · simp [hlow]
    · rw [show 5 + (i - 5) = i by omega]
      simp [hlow, hi, not_lt.mp hlow]
  have hlt := x.isLt
  rw [hshift, BitVec.toNat_shiftLeft, BitVec.toNat_ushiftRight, Nat.shiftRight_eq_div_pow,
    Nat.shiftLeft_eq, Nat.mod_eq_of_lt (by omega)]

theorem toNat_and_region (x : BitVec 32) : (x &&& 0xF#32).toNat = x.toNat % 16 := by
  rw [BitVec.toNat_and]
  exact Nat.and_two_pow_sub_one_eq_mod x.toNat 4

/-- The value of `RBAR`: the parts do not overlap. -/
theorem toNat_rbar (addr region : BitVec 32) :
    ((addr &&& 0xFFFFFFE0#32) + (region &&& 0xF#32) + 0x10#32).toNat
      = addr.toNat / 32 * 32 + region.toNat % 16 + 16 := by
  have hlt := addr.isLt
  rw [BitVec.toNat_add, BitVec.toNat_add, toNat_and_mask, toNat_and_region]
  simp only [BitVec.toNat_ofNat]
  omega

/-- **What the unit reads in `RASR`** is what was packed, for sizes up to that of the memory. -/
theorem rasrOf_fields (len : BitVec 32) (hmin : 5 ≤ len.toNat) (hmax : len.toNat ≤ 32)
    (ap : AccessPermission) (executable : Bool) (rbar : BitVec 32) :
    Region.enabled ⟨rbar, rasrOf len ap executable⟩ = true
      ∧ Region.sizeBits ⟨rbar, rasrOf len ap executable⟩ = len.toNat
      ∧ Region.ap ⟨rbar, rasrOf len ap executable⟩ = ap.toNat
      ∧ Region.executeNever ⟨rbar, rasrOf len ap executable⟩ = !executable := by
  have hfields : ∀ n : Fin 33, 5 ≤ n.val →
      Region.enabled ⟨0, rasrOf (BitVec.ofNat 32 n) ap executable⟩ = true
        ∧ Region.sizeBits ⟨0, rasrOf (BitVec.ofNat 32 n) ap executable⟩ = n
        ∧ Region.ap ⟨0, rasrOf (BitVec.ofNat 32 n) ap executable⟩ = ap.toNat
        ∧ Region.executeNever ⟨0, rasrOf (BitVec.ofNat 32 n) ap executable⟩ = !executable := by
    cases ap <;> cases executable <;> decide +kernel
  have hlen : BitVec.ofNat 32 len.toNat = len := by simp
  have h := hfields ⟨len.toNat, by omega⟩ hmin
  dsimp only at h
  rw [hlen] at h
  exact h

/-- **Configuring a region** sets the registers of this region and no others. -/
theorem mpuConfigureRegion_eq (m : Mpu) (region addr len : BitVec 32)
    (hlen : 5 ≤ len) (ap : AccessPermission) (executable : Bool) :
    ∃ m', mpuConfigureRegion m region addr len ap executable = .ok m' ∧ m'.ctrl = m.ctrl
      ∧ m'.regions = Function.update m.regions (region.setWidth 4)
        ⟨addr &&& 0xFFFFFFE0#32, rasrOf len ap executable⟩ := by
  have hvalue := toNat_rbar addr region
  have hvalid : ((addr &&& 0xFFFFFFE0#32) + (region &&& 0xF#32) + 0x10#32).getLsbD 4 = true := by
    rw [← BitVec.testBit_toNat, hvalue, Nat.testBit_eq_decide_div_mod_eq]
    exact decide_eq_true (by omega)
  have hnumber : ((addr &&& 0xFFFFFFE0#32) + (region &&& 0xF#32) + 0x10#32).setWidth 4
      = region.setWidth 4 := by
    apply BitVec.eq_of_toNat_eq
    rw [BitVec.toNat_setWidth, BitVec.toNat_setWidth, hvalue]
    omega
  have hbase : ((addr &&& 0xFFFFFFE0#32) + (region &&& 0xF#32) + 0x10#32) &&& 0xFFFFFFE0#32
      = addr &&& 0xFFFFFFE0#32 := by
    apply BitVec.eq_of_toNat_eq
    rw [toNat_and_mask, hvalue, toNat_and_mask]
    omega
  refine ⟨_, if_pos hlen, rfl, ?_⟩
  unfold Mpu.writeRasr Mpu.writeRbar
  dsimp only
  rw [hvalid, hnumber, hbase, if_pos rfl, Function.update_self, Function.update_idem]

/-- An address is in a region that was configured if its upper bits are those of the base. -/
theorem contains_configured (addr len : BitVec 32) (hmin : 5 ≤ len.toNat)
    (hmax : len.toNat ≤ 32) (ap : AccessPermission) (executable : Bool) (x : BitVec 32) :
    Region.Contains ⟨addr &&& 0xFFFFFFE0#32, rasrOf len ap executable⟩ x
      ↔ x.toNat / 2 ^ len.toNat = addr.toNat / 2 ^ len.toNat := by
  obtain ⟨henabled, hsize, -, -⟩ :=
    rasrOf_fields len hmin hmax ap executable (addr &&& 0xFFFFFFE0#32)
  have hbase : addr.toNat / 32 * 32 / 2 ^ len.toNat = addr.toNat / 2 ^ len.toNat := by
    obtain ⟨k, hk⟩ := Nat.exists_eq_add_of_le hmin
    rw [hk, Nat.pow_add, ← Nat.div_div_eq_div_mul, ← Nat.div_div_eq_div_mul,
      Nat.mul_div_cancel _ (by decide)]
  unfold Region.Contains
  rw [henabled, hsize, ← BitVec.toNat_inj, BitVec.toNat_ushiftRight, BitVec.toNat_ushiftRight,
    toNat_and_mask, Nat.shiftRight_eq_div_pow, Nat.shiftRight_eq_div_pow, hbase]
  exact and_iff_right rfl

/-! ## What is protected -/

/-- A region that is not enabled. -/
def unused : Region := ⟨0, 0⟩

def nullRegion : Region := ⟨0#32 &&& 0xFFFFFFE0#32, rasrOf 5 .noNo false⟩

def ramRegion : Region := ⟨0x20000000#32 &&& 0xFFFFFFE0#32, rasrOf 29 .rwRw false⟩

def guardRegion (addr : BitVec 32) : Region := ⟨addr &&& 0xFFFFFFE0#32, rasrOf 5 .noNo false⟩

/-- **What the firmware sets up**, with the address of the guard if a thread has one. -/
structure Guarded (m : Mpu) (guard : Option (BitVec 32)) : Prop where
  enabled : m.enabled = true
  privdefena : m.privdefena = true
  null : m.regions 7 = nullRegion
  guard : m.regions 6 = (guard.map guardRegion).getD unused
  ram : m.regions 0 = ramRegion
  others : ∀ n : BitVec 4, n ≠ 7 → n ≠ 6 → n ≠ 0 → m.regions n = unused

/-- The address is in the block of the guard. -/
def InGuard (guard : Option (BitVec 32)) (addr : BitVec 32) : Prop :=
  ∃ g, guard = some g ∧ addr.toNat / 32 = g.toNat / 32

instance (guard : Option (BitVec 32)) (addr : BitVec 32) : Decidable (InGuard guard addr) :=
  match guard with
  | none => isFalse (by rintro ⟨g, hg, -⟩; cases hg)
  | some g => decidable_of_iff (addr.toNat / 32 = g.toNat / 32)
      ⟨fun h => ⟨g, rfl, h⟩, by rintro ⟨g', hg, h⟩; cases hg; exact h⟩

/-- The addresses of the RAM. -/
def InRam (addr : BitVec 32) : Prop := 0x20000000 ≤ addr.toNat ∧ addr.toNat < 0x40000000

instance (addr : BitVec 32) : Decidable (InRam addr) := inferInstanceAs (Decidable (_ ∧ _))

/-- **The protection that is asked for**: nobody accesses the first bytes of the memory or the
guard, and nobody executes the RAM, which everybody reads and writes. -/
def protection (defaultMap : BitVec 32 → Access → Bool) (guard : Option (BitVec 32))
    (addr : BitVec 32) (a : Access) : Bool :=
  if addr.toNat < 32 then false
  else if InGuard guard addr then false
  else if InRam addr then a.kind ≠ .execute
  else a.privileged && defaultMap addr a

theorem not_contains_unused (addr : BitVec 32) : ¬ unused.Contains addr :=
  fun h => Bool.false_ne_true h.1

theorem contains_null (addr : BitVec 32) : nullRegion.Contains addr ↔ addr.toNat < 32 := by
  unfold nullRegion
  rw [contains_configured _ _ (by decide) (by decide)]
  show addr.toNat / 32 = 0 / 32 ↔ _
  omega

theorem contains_ram (addr : BitVec 32) : ramRegion.Contains addr ↔ InRam addr := by
  unfold ramRegion InRam
  rw [contains_configured _ _ (by decide) (by decide)]
  show addr.toNat / 536870912 = 536870912 / 536870912 ↔ _
  omega

theorem contains_guard (guard : Option (BitVec 32)) (addr : BitVec 32) :
    ((guard.map guardRegion).getD unused).Contains addr ↔ InGuard guard addr := by
  cases guard with
  | none =>
    constructor
    · exact fun h => absurd h (not_contains_unused addr)
    · rintro ⟨g, hg, -⟩
      cases hg
  | some g =>
    have hconfigured := contains_configured g 5 (by decide) (by decide) .noNo
      false addr
    constructor
    · exact fun h => ⟨g, rfl, hconfigured.mp h⟩
    · rintro ⟨g', hg, h⟩
      cases hg
      exact hconfigured.mpr h

theorem grants_null (a : Access) : nullRegion.grants a = false := by
  obtain ⟨kind, privileged⟩ := a
  cases kind <;> cases privileged <;> decide +kernel

theorem grants_guard (g : BitVec 32) (a : Access) : (guardRegion g).grants a = false := by
  have hap : (guardRegion g).ap = 0 :=
    (rasrOf_fields 5 (by decide) (by decide) .noNo false _).2.2.1
  unfold Region.grants
  rw [hap]
  rfl

theorem grants_ram (a : Access) : ramRegion.grants a = decide (a.kind ≠ .execute) := by
  obtain ⟨kind, privileged⟩ := a
  cases kind <;> cases privileged <;> decide +kernel

theorem find_of_contains {r : Region} {addr : BitVec 32} (h : r.Contains addr)
    (rs : List Region) : (r :: rs).find? (fun r => decide (r.Contains addr)) = some r :=
  List.find?_cons_of_pos (decide_eq_true h)

theorem find_of_not_contains {r : Region} {addr : BitVec 32} (h : ¬ r.Contains addr)
    (rs : List Region) : (r :: rs).find? (fun r => decide (r.Contains addr))
      = rs.find? (fun r => decide (r.Contains addr)) :=
  List.find?_cons_of_neg (by simpa using h)

/-- **The unit decides as asked for.** -/
theorem Guarded.allows {m : Mpu} {guard : Option (BitVec 32)} (hm : Guarded m guard)
    (defaultMap : BitVec 32 → Access → Bool) (addr : BitVec 32) (a : Access) :
    m.allows defaultMap addr a = protection defaultMap guard addr a := by
  have hregions : ([7, 6, 5, 4, 3, 2, 1, 0] : List (BitVec 4)).map m.regions
      = [nullRegion, (guard.map guardRegion).getD unused, unused, unused, unused, unused, unused,
        ramRegion] := by
    simp only [List.map_cons, List.map_nil]
    rw [hm.null, hm.guard, hm.ram, hm.others 5 (by decide) (by decide) (by decide),
      hm.others 4 (by decide) (by decide) (by decide),
      hm.others 3 (by decide) (by decide) (by decide),
      hm.others 2 (by decide) (by decide) (by decide),
      hm.others 1 (by decide) (by decide) (by decide)]
  have hunused := find_of_not_contains (not_contains_unused addr)
  unfold Mpu.allows protection Mpu.deciding
  rw [if_pos hm.enabled, hm.privdefena, Bool.and_true, hregions]
  by_cases hnull : addr.toNat < 32
  · have hcontains := (contains_null addr).mpr hnull
    rw [if_pos hnull, find_of_contains hcontains]
    exact grants_null a
  have hnot : ¬ nullRegion.Contains addr := fun h => hnull ((contains_null addr).mp h)
  rw [if_neg hnull, find_of_not_contains hnot]
  by_cases hguard : InGuard guard addr
  · have hcontains := (contains_guard guard addr).mpr hguard
    rw [if_pos hguard, find_of_contains hcontains]
    obtain ⟨g, rfl, -⟩ := hguard
    exact grants_guard g a
  have hnot' : ¬ ((guard.map guardRegion).getD unused).Contains addr :=
    fun h => hguard ((contains_guard guard addr).mp h)
  rw [if_neg hguard, find_of_not_contains hnot', hunused, hunused, hunused,
    hunused, hunused]
  by_cases hram : InRam addr
  · have hcontains := (contains_ram addr).mpr hram
    rw [if_pos hram, find_of_contains hcontains]
    exact grants_ram a
  · have hnot'' : ¬ ramRegion.Contains addr := fun h => hram ((contains_ram addr).mp h)
    rw [if_neg hram, find_of_not_contains hnot'']
    rfl

/-! ## Whole runs -/

/-- The guard that the hook asks for when a thread follows. -/
def guardOf (mainthread sizeofThread ntp : BitVec 32) : Option (BitVec 32) :=
  if ntp = mainthread then none else some (ntp + sizeofThread + 32)

/-- **At the start** the RAM and the first bytes are protected. -/
theorem guarded_mpuInit : ∃ m, mpuInit .reset = .ok m ∧ Guarded m none := by
  obtain ⟨m₁, hfirst, hctrl₁, hregions₁⟩ := mpuConfigureRegion_eq
    { Mpu.reset with ctrl := Mpu.reset.ctrl ||| 4 } 7 0 5 (by decide) .noNo false
  obtain ⟨m₂, hsecond, hctrl₂, hregions₂⟩ := mpuConfigureRegion_eq
    m₁ 0 0x20000000 29 (by decide) .rwRw false
  have hregions : m₂.regions = Function.update (Function.update (fun _ => unused) 7 nullRegion) 0
      ramRegion := by
    rw [hregions₂, hregions₁]
    rfl
  refine ⟨mpuEnable m₂, ?_, ?_, ?_, ?_, ?_, ?_, ?_⟩
  · unfold mpuInit
    rw [hfirst]
    dsimp only
    rw [hsecond]
  · show (m₂.ctrl ||| 1).getLsbD 0 = true
    rw [hctrl₂, hctrl₁]
    decide
  · show (m₂.ctrl ||| 1).getLsbD 2 = true
    rw [hctrl₂, hctrl₁]
    decide
  · show m₂.regions 7 = _
    rw [hregions]
    rfl
  · show m₂.regions 6 = _
    rw [hregions]
    rfl
  · show m₂.regions 0 = _
    rw [hregions]
    rfl
  · intro n hnull _ hram
    show m₂.regions n = _
    rw [hregions, Function.update_of_ne hram, Function.update_of_ne hnull]

/-- **A context switch** moves the guard, unless the main thread follows. -/
theorem guarded_contextSwitchHook {m : Mpu} {guard : Option (BitVec 32)} (hm : Guarded m guard)
    (mainthread sizeofThread ntp : BitVec 32) :
    ∃ m', contextSwitchHook mainthread sizeofThread m ntp = .ok m'
      ∧ Guarded m' ((guardOf mainthread sizeofThread ntp).or guard) := by
  unfold contextSwitchHook guardOf
  by_cases hmain : ntp = mainthread
  · rw [if_pos hmain, if_pos hmain]
    exact ⟨m, rfl, hm⟩
  · rw [if_neg hmain, if_neg hmain]
    obtain ⟨m', hstep, hctrl, hregions⟩ := mpuConfigureRegion_eq m 6 (ntp + sizeofThread + 32)
      5 (by decide) .noNo false
    have hself : m'.regions 6 = guardRegion (ntp + sizeofThread + 32) := by
      rw [hregions]
      exact Function.update_self _ _ _
    have hother : ∀ n : BitVec 4, n ≠ 6 → m'.regions n = m.regions n := fun n hn => by
      rw [hregions]
      exact Function.update_of_ne hn _ _
    refine ⟨m', hstep, ?_, ?_, ?_, hself, ?_, fun n hnull hguard hram => ?_⟩
    · unfold Mpu.enabled
      rw [hctrl]
      exact hm.enabled
    · unfold Mpu.privdefena
      rw [hctrl]
      exact hm.privdefena
    · rw [hother 7 (by decide)]
      exact hm.null
    · rw [hother 0 (by decide)]
      exact hm.ram
    · rw [hother n hguard]
      exact hm.others n hnull hguard hram

/-- **The guard is in the working area of the thread**, behind its `thread_t`. -/
theorem guard_in_workingArea {mainthread sizeofThread ntp addr : BitVec 32}
    (hfits : ntp.toNat + sizeofThread.toNat + 64 ≤ 2 ^ 32)
    (h : InGuard (guardOf mainthread sizeofThread ntp) addr) :
    ntp.toNat + sizeofThread.toNat < addr.toNat
      ∧ addr.toNat < ntp.toNat + sizeofThread.toNat + 64 := by
  obtain ⟨g, hg, hblock⟩ := h
  unfold guardOf at hg
  split_ifs at hg
  obtain rfl := Option.some.inj hg
  have hvalue : (ntp + sizeofThread + 32).toNat = ntp.toNat + sizeofThread.toNat + 32 := by
    have hblock32 : (32 : BitVec 32).toNat = 32 := rfl
    rw [BitVec.toNat_add, BitVec.toNat_add, hblock32]
    omega
  rw [hvalue] at hblock
  omega

/-- **The memory is protected in every run.** After the start and any context switches, the unit
decides about every access as asked for, with the guard of the last thread that is not the main
thread. Where the working area of that thread ends below the end of the memory, the guard is
within it, and not in its `thread_t`. -/
theorem protects (mainthread sizeofThread : BitVec 32) (threads : List (BitVec 32)) :
    ∃ m₀ m, mpuInit .reset = .ok m₀
      ∧ run (contextSwitchHook mainthread sizeofThread) m₀ threads = .ok m
      ∧ (∀ defaultMap addr a, m.allows defaultMap addr a
        = protection defaultMap (latest (guardOf mainthread sizeofThread) threads) addr a)
      ∧ ∀ ntp addr, ntp.toNat + sizeofThread.toNat + 64 ≤ 2 ^ 32 →
        InGuard (guardOf mainthread sizeofThread ntp) addr →
        ntp.toNat + sizeofThread.toNat < addr.toNat
          ∧ addr.toNat < ntp.toNat + sizeofThread.toNat + 64 := by
  obtain ⟨m₀, hinit, hm₀⟩ := guarded_mpuInit
  have hrun : ∃ m, run (contextSwitchHook mainthread sizeofThread) m₀ threads = .ok m
      ∧ Guarded m (latest (guardOf mainthread sizeofThread) threads) := by
    induction threads using List.reverseRecOn with
    | nil => exact ⟨m₀, rfl, hm₀⟩
    | append_singleton threads ntp ih =>
      obtain ⟨m, hrun, hm⟩ := ih
      obtain ⟨m', hstep, hm'⟩ := guarded_contextSwitchHook hm mainthread sizeofThread ntp
      refine ⟨m', (run_append hrun _).trans (run_cons_of_step hstep []), ?_⟩
      rw [latest_concat]
      exact hm'
  obtain ⟨m, hrun, hm⟩ := hrun
  exact ⟨m₀, m, hinit, hrun, hm.allows, fun _ _ => guard_in_workingArea⟩

end MemoryProtection
