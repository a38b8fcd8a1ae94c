import EpuckFirmware.CountingLoop

/-!
# The CAN interface

`aseba_vm/aseba_can_interface.c`. The thread `can_rx_thd` receives frames and hands
the standard data frames to the network layer; `aseba_can_send_frame` transmits a
frame of the network layer. Both copy as many bytes as the length says, between arrays
of eight bytes, and an access outside of them ends the model's run.

The length of a received frame is the DLC field. The bus allows values up to 15 there,
all of which from 8 on stand for eight bytes, and the receiving thread takes the field
as it is: it is right on the streams whose frames have a DLC of at most 8, and on no
other.
-/

namespace AsebaCan

open CountingLoop StepMachine

/-- `CANRxFrame` and `CANTxFrame`. A frame with an extended identifier has its own
field for it, which is not read. -/
structure HalFrame where
  ide : Bool
  rtr : Bool
  dlc : BitVec 4
  sid : BitVec 11
  data8 : Vector UInt8 8

/-- `CanFrame`, the frame of the network layer. -/
structure CanFrame where
  id : BitVec 11
  len : BitVec 4
  data : Vector UInt8 8

/-- An access outside an array. -/
structure OutOfBounds where
  index : ℕ

/-- `data[i] = source[i];` -/
def copyByte (source data : Vector UInt8 8) (i : ℕ) : Except OutOfBounds (Vector UInt8 8) :=
  if h : i < 8 then .ok (data.set i source[i] h) else .error ⟨i⟩

/-- The copy of the first `len` bytes. -/
def copyData (source : Vector UInt8 8) (len : ℕ) (data : Vector UInt8 8) :
    Except OutOfBounds (Vector UInt8 8) :=
  loop (copyByte source) 1 len data

/-- The first `k` bytes are those of the source. -/
def Copied (source : Vector UInt8 8) (k : ℕ) (data : Vector UInt8 8) : Prop :=
  ∀ i, (h : i < 8) → i < k → data[i] = source[i]

@[simp] theorem copied_zero (source data : Vector UInt8 8) : Copied source 0 data :=
  fun i _ hi => absurd hi (Nat.not_lt_zero i)

/-- A byte within the arrays is copied. -/
theorem copyByte_ok {source : Vector UInt8 8} {k : ℕ} (hk : k < 8) (data : Vector UInt8 8)
    (h : Copied source k data) :
    ∃ data', copyByte source data k = .ok data' ∧ Copied source (k + 1) data' := by
  refine ⟨data.set k source[k] hk, dif_pos hk, fun i hi hik => ?_⟩
  rw [Vector.getElem_set]
  split
  · subst k
    rfl
  · exact h i hi (by omega)

/-- Up to eight bytes are copied. -/
theorem copyData_ok (source : Vector UInt8 8) {len : ℕ} (hlen : len ≤ 8)
    (data : Vector UInt8 8) :
    ∃ data', copyData source len data = .ok data' ∧ Copied source len data' :=
  loop_one_ok (copied_zero source data) (fun _ hk => copyByte_ok (hk.trans_le hlen))

/-- A ninth byte is outside the arrays. -/
theorem copyData_error (source : Vector UInt8 8) {len : ℕ} (hlen : 8 < len)
    (data : Vector UInt8 8) : ∃ e, copyData source len data = .error e :=
  loop_one_error (copied_zero source data) hlen (fun _ => copyByte_ok) (fun _ _ => ⟨⟨8⟩, rfl⟩)

/-- **What a copy that stays within the arrays says.** -/
theorem copyData_spec {source data data' : Vector UInt8 8} {len : ℕ}
    (h : copyData source len data = .ok data') : len ≤ 8 ∧ Copied source len data' := by
  have hlen : len ≤ 8 := by
    by_contra hlt
    obtain ⟨e, he⟩ := copyData_error source (Nat.lt_of_not_le hlt) data
    rw [he] at h
    cases h
  obtain ⟨copied, hcopy, hcopied⟩ := copyData_ok source hlen data
  rw [hcopy] at h
  cases h
  exact ⟨hlen, hcopied⟩

/-! ## Reception -/

/-- What a turn of `can_rx_thd` meets: the frame of `canReceive`, or none when it
returns something else than `MSG_OK`, and what the memory of the local `aseba_can_frame`
holds. -/
structure Reception where
  received : Option HalFrame
  stale : Vector UInt8 8

/-- A turn of `can_rx_thd`, which adds to the frames that `AsebaCanFrameReceived` was
called with. -/
def canRxTurn (delivered : List CanFrame) (r : Reception) : Except OutOfBounds (List CanFrame) :=
  match r.received with
  | none => .ok delivered
  | some rxf =>
    if rxf.ide then
      .ok delivered
    else if rxf.rtr then
      .ok delivered
    else
      (copyData rxf.data8 rxf.dlc.toNat r.stale).map
        (fun data => delivered ++ [{ id := rxf.sid, len := rxf.dlc, data := data }])

/-- `can_rx_thd`: the frames that it delivers. -/
def canRxThd (stream : List Reception) : Except OutOfBounds (List CanFrame) :=
  run canRxTurn [] stream

/-- The frame that a turn has to deliver: a standard frame that is no remote
transmission request. -/
def Reception.data? (r : Reception) : Option HalFrame :=
  r.received.filter (fun rxf => !rxf.ide && !rxf.rtr)

/-- The delivered frame is the received one. -/
structure Conveys (rxf : HalFrame) (frame : CanFrame) : Prop where
  id : frame.id = rxf.sid
  len : frame.len.toNat = min rxf.dlc.toNat 8
  data : Copied rxf.data8 frame.len.toNat frame.data

/-- **Reception is faithful and in bounds**: no access is outside an array, and the
frames that are delivered are the standard data frames, in order, each once. -/
def Faithful (stream : List Reception) : Prop :=
  ∃ delivered, canRxThd stream = .ok delivered
    ∧ List.Forall₂ Conveys (stream.filterMap Reception.data?) delivered

/-- A turn that has nothing to deliver delivers nothing. -/
theorem canRxTurn_of_none {r : Reception} (h : r.data? = none) (delivered : List CanFrame) :
    canRxTurn delivered r = .ok delivered := by
  unfold canRxTurn
  unfold Reception.data? at h
  cases hr : r.received with
  | none => rfl
  | some rxf =>
    rw [hr, Option.filter_some] at h
    cases hide : rxf.ide <;> cases hrtr : rxf.rtr <;> simp_all

/-- A turn with a frame to deliver copies its data. -/
theorem canRxTurn_of_some {r : Reception} {rxf : HalFrame} (h : r.data? = some rxf)
    (delivered : List CanFrame) :
    canRxTurn delivered r = (copyData rxf.data8 rxf.dlc.toNat r.stale).map
      (fun data => delivered ++ [{ id := rxf.sid, len := rxf.dlc, data := data }]) := by
  obtain ⟨hr, hdata⟩ := Option.filter_eq_some_iff.mp h
  have hide : rxf.ide = false := by simp_all
  have hrtr : rxf.rtr = false := by simp_all
  unfold canRxTurn
  rw [hr]
  simp only [hide, hrtr, Bool.false_eq_true, if_false]

/-- The frames of a DLC of at most 8 are delivered as they were received. -/
theorem exists_run_canRxTurn {stream : List Reception} (delivered : List CanFrame)
    (h : ∀ rxf ∈ stream.filterMap Reception.data?, rxf.dlc.toNat ≤ 8) :
    ∃ frames, run canRxTurn delivered stream = .ok (delivered ++ frames)
      ∧ List.Forall₂ Conveys (stream.filterMap Reception.data?) frames := by
  induction stream generalizing delivered with
  | nil => exact ⟨[], by rw [run_nil, List.append_nil], List.Forall₂.nil⟩
  | cons r stream ih =>
    cases hr : r.data? with
    | none =>
      rw [List.filterMap_cons_none hr] at h ⊢
      rw [run_cons_of_step (canRxTurn_of_none hr delivered)]
      exact ih delivered h
    | some rxf =>
      rw [List.filterMap_cons_some hr] at h ⊢
      have hdlc := h rxf List.mem_cons_self
      obtain ⟨data, hcopy, hdata⟩ := copyData_ok rxf.data8 hdlc r.stale
      have hturn := canRxTurn_of_some hr delivered
      rw [hcopy] at hturn
      obtain ⟨frames, hrun, hframes⟩ := ih _ (fun x hx => h x (List.mem_cons_of_mem _ hx))
      refine ⟨{ id := rxf.sid, len := rxf.dlc, data := data } :: frames, ?_,
        List.Forall₂.cons ⟨rfl, (Nat.min_eq_left hdlc).symm, hdata⟩ hframes⟩
      rw [run_cons_of_step hturn, hrun, List.append_assoc, List.singleton_append]

/-- A run that stays within the arrays met no frame of a larger DLC. -/
theorem dlc_le_of_run_canRxTurn {stream : List Reception} {delivered delivered' : List CanFrame}
    (h : run canRxTurn delivered stream = .ok delivered') :
    ∀ rxf ∈ stream.filterMap Reception.data?, rxf.dlc.toNat ≤ 8 := by
  induction stream generalizing delivered with
  | nil =>
    intro rxf hmem
    exact absurd hmem List.not_mem_nil
  | cons r stream ih =>
    obtain ⟨next, hturn, hrest⟩ := run_cons_eq_ok h
    cases hr : r.data? with
    | none =>
      rw [List.filterMap_cons_none hr]
      exact ih hrest
    | some rxf =>
      rw [List.filterMap_cons_some hr, List.forall_mem_cons]
      refine ⟨?_, ih hrest⟩
      rw [canRxTurn_of_some hr] at hturn
      obtain ⟨data, hcopy, -⟩ := map_eq_ok hturn
      exact (copyData_spec hcopy).1

/-- **Reception is faithful exactly on the streams whose standard data frames have a
DLC of at most 8.** -/
theorem faithful_iff (stream : List Reception) :
    Faithful stream ↔ ∀ rxf ∈ stream.filterMap Reception.data?, rxf.dlc.toNat ≤ 8 := by
  constructor
  · rintro ⟨delivered, hrun, -⟩
    exact dlc_le_of_run_canRxTurn hrun
  · intro h
    obtain ⟨frames, hrun, hframes⟩ := exists_run_canRxTurn [] h
    exact ⟨frames, hrun, hframes⟩

/-- A standard data frame of DLC 9, which the bus allows, is copied beyond the arrays. -/
theorem not_faithful_dlc_nine :
    ¬ Faithful [⟨some ⟨false, false, 9, 0, Vector.replicate 8 0⟩, Vector.replicate 8 0⟩] := by
  rintro ⟨delivered, hrun, -⟩
  have h := dlc_le_of_run_canRxTurn hrun ⟨false, false, 9, 0, Vector.replicate 8 0⟩
    List.mem_cons_self
  exact absurd h (by decide)

/-! ## Transmission -/

/-- `aseba_can_send_frame`: the frame that is transmitted, whose memory held `stale`. -/
def asebaCanSendFrame (frame : CanFrame) (stale : Vector UInt8 8) :
    Except OutOfBounds HalFrame :=
  (copyData frame.data frame.len.toNat stale).map
    (fun data8 =>
      { ide := false, rtr := false, dlc := frame.len, sid := frame.id, data8 := data8 })

/-- The network layers of two nodes agree on a frame. -/
structure SameFrame (sent delivered : CanFrame) : Prop where
  id : delivered.id = sent.id
  len : delivered.len = sent.len
  data : Copied sent.data sent.len.toNat delivered.data

/-- A frame that `aseba_can_send_frame` transmits is a standard data frame of the same
length, which is at most 8. -/
theorem asebaCanSendFrame_spec {frame : CanFrame} {stale : Vector UInt8 8} {txf : HalFrame}
    (h : asebaCanSendFrame frame stale = .ok txf) :
    txf.ide = false ∧ txf.rtr = false ∧ txf.sid = frame.id ∧ txf.dlc = frame.len
      ∧ frame.len.toNat ≤ 8 ∧ Copied frame.data frame.len.toNat txf.data8 := by
  obtain ⟨data8, hcopy, rfl⟩ := map_eq_ok h
  obtain ⟨hlen, hdata⟩ := copyData_spec hcopy
  exact ⟨rfl, rfl, rfl, rfl, hlen, hdata⟩

/-- What is received of a transmitted frame is the frame. -/
theorem SameFrame.of_conveys {sent delivered : CanFrame} {stale : Vector UInt8 8}
    {txf : HalFrame} (hsend : asebaCanSendFrame sent stale = .ok txf)
    (h : Conveys txf delivered) : SameFrame sent delivered := by
  obtain ⟨-, -, hsid, hdlc, hle, hdata⟩ := asebaCanSendFrame_spec hsend
  have hlen : delivered.len.toNat = sent.len.toNat := by
    rw [h.len, hdlc, Nat.min_eq_left hle]
  refine ⟨h.id.trans hsid, BitVec.eq_of_toNat_eq hlen, fun i hi hlt => ?_⟩
  rw [h.data i hi (by omega), hdata i hi hlt]

/-- The frames on the bus are the ones that were transmitted, in order. -/
def Transmitted (sent : List CanFrame) (frames : List HalFrame) : Prop :=
  List.Forall₂ (fun frame rxf => ∃ stale, asebaCanSendFrame frame stale = .ok rxf) sent frames

/-- A frame that was transmitted has a DLC of at most 8. -/
theorem Transmitted.dlc_le {sent : List CanFrame} {frames : List HalFrame}
    (h : Transmitted sent frames) : ∀ rxf ∈ frames, rxf.dlc.toNat ≤ 8 := by
  induction h with
  | nil =>
    intro rxf hmem
    exact absurd hmem List.not_mem_nil
  | cons hsend _ ih =>
    obtain ⟨stale, hsend⟩ := hsend
    obtain ⟨-, -, -, hdlc, hle, -⟩ := asebaCanSendFrame_spec hsend
    exact List.forall_mem_cons.mpr ⟨hdlc ▸ hle, ih⟩

/-- What is received of the transmitted frames is these frames. -/
theorem Transmitted.sameFrames {sent : List CanFrame} {frames : List HalFrame}
    (h : Transmitted sent frames) {delivered : List CanFrame}
    (hconveys : List.Forall₂ Conveys frames delivered) :
    List.Forall₂ SameFrame sent delivered := by
  induction h generalizing delivered with
  | nil =>
    cases hconveys
    exact List.Forall₂.nil
  | cons hsend _ ih =>
    obtain ⟨stale, hsend⟩ := hsend
    cases hconveys with
    | cons hfirst hrest =>
      exact List.Forall₂.cons (SameFrame.of_conveys hsend hfirst) (ih hrest)

/-- **Nodes that run this interface understand each other**: when the data frames that
arrive are the ones that were transmitted, the receiving thread delivers the frames that
`aseba_can_send_frame` was given. -/
theorem delivered_of_transmitted {sent : List CanFrame} {stream : List Reception}
    (h : Transmitted sent (stream.filterMap Reception.data?)) :
    ∃ delivered, canRxThd stream = .ok delivered ∧ List.Forall₂ SameFrame sent delivered := by
  obtain ⟨frames, hrun, hframes⟩ := exists_run_canRxTurn [] h.dlc_le
  exact ⟨frames, hrun, h.sameFrames hframes⟩

/-- A frame of two bytes, received after a timeout and a remote frame. -/
theorem delivered_of_transmitted_two :
    ∃ delivered, canRxThd [⟨none, Vector.replicate 8 1⟩,
        ⟨some ⟨false, true, 3, 7, Vector.replicate 8 2⟩, Vector.replicate 8 3⟩,
        ⟨some ⟨false, false, 2, 5, #v[6, 6, 4, 4, 4, 4, 4, 4]⟩, Vector.replicate 8 5⟩]
          = .ok delivered
      ∧ List.Forall₂ SameFrame [⟨5, 2, Vector.replicate 8 6⟩] delivered :=
  delivered_of_transmitted (List.Forall₂.cons ⟨Vector.replicate 8 4, rfl⟩ List.Forall₂.nil)

end AsebaCan
