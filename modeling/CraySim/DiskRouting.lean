/-
  Subject:   Disk packets of the IOS-E and the disk they reach.

  A D-packet names its disk by channel, IOP and unit. The cluster goes through all its disks; the
  branch for reads compares all three, the branch for writes the channel only, and neither stops
  at the first disk that fits.

  * `DPacket` -- the fields of a request,
  * `handleIosEDPacket` -- the handler,
  * `Ledger` -- the disks by their names, with what was last written to them,
  * `Served` -- requests with an address that exists, and writes to a channel that has one disk,
  * `routed` -- every request reaches its disk and no other.
-/
import CraySim.IopEPacket
import CraySim.SimIopDisk
import CraySim.Lib.EventRun
import Mathlib.Data.List.Nodup

namespace CraySim

open EventRun (run Along trace)

/-! ## 1. Requests and responses -/

/-- What `HandleIosEDPacket` takes from a packet. -/
structure DPacket where
  channel : BitVec 8
  iopNumber : BitVec 8
  unit : BitVec 8
  requestCode : Nat
  cylinder : Nat
  head : Nat
  sector : Nat
  sectorCnt : Nat
  targetMemoryType : Nat
  targetMemoryAddr : CAddr

def DPacket.decode (aPacket : IopEPacket) : Except Exn DPacket := do
  let w0 ← aPacket.data 0
  let w2 ← aPacket.data 2
  let w4 ← aPacket.data 4
  return {
    channel := (getBits w0 16 20).setWidth 8
    iopNumber := aPacket.getProcess
    unit := (getBits w0 21 24).setWidth 8
    requestCode := (getBits w0 40 47).toNat
    cylinder := (getBits w2 32 63).toNat
    head := (getBits w2 31 31).toNat
    sector := (getBits w2 30 30).toNat
    sectorCnt := (getBits w2 0 15).toNat
    targetMemoryType := (getBits w4 48 50).toNat
    targetMemoryAddr := (getBits w4 0 47).setWidth 32 }

/-- The disks of a cluster, the image files, the memory, and what was queued for the mainframe. -/
structure DiskDevices where
  mDisks : List SimIopDisk
  images : String → List (BitVec 8)
  mMemory : Nat → BitVec 8
  sent : List (List CInt)

abbrev DiskCluster := SimIopCluster DiskDevices

namespace DiskCluster

def generateResponse (c : DiskCluster) (aRequest : IopEPacket) : IopEPacket :=
  (((aRequest.setSize 0).setAckSeq c.mSeqReceived).setSeq c.mSeqSent).setFlags IopEPacket.cFlagAck

def sendPacket (c : DiskCluster) (aPacket : IopEPacket) : DiskCluster :=
  let packet := ((aPacket.setAckSeq c.mSeqReceived).setSeq c.mSeqSent).finalize
  { c with
    mSeqSent := c.mSeqSent + 1
    devices := { c.devices with sent := c.devices.sent ++ [packet.mPacket] } }

def setMemory (c : DiskCluster) (mem : Nat → BitVec 8) : DiskCluster :=
  { c with devices := { c.devices with mMemory := mem } }

def setImage (c : DiskCluster) (name : String) (image : List (BitVec 8)) : DiskCluster :=
  { c with devices := { c.devices with images := Function.update c.devices.images name image } }

/-- `Response.Data(Idx) = aPacket.Data(Idx)` for the first words. -/
def copyData (aPacket : IopEPacket) (cnt : Nat) (response : IopEPacket) : Except Exn IopEPacket :=
  (List.range cnt).foldlM (fun r idx => do r.setData idx (← aPacket.data idx)) response

/-- `SetBitsInPlace(Response.Data(0), ...)`. -/
def setField (startIdx endIdx : Nat) (value : CInt) (r : IopEPacket) : Except Exn IopEPacket := do
  r.setData 0 (setBits (← r.data 0) startIdx endIdx value)

/-- The response to a request, with the first `cnt` words of it. -/
def respond (aPacket : IopEPacket) (cnt : Nat) (requestCode : CInt) (c : DiskCluster) :
    Except Exn DiskCluster := do
  let response ← copyData aPacket cnt ((c.generateResponse aPacket).setSize 68)
  let response ← setField 56 63 (BitVec.ofNat 64 'd'.toNat) response
  let response ← setField 40 47 requestCode response
  let response ← setField 32 39 0o000 response
  return c.sendPacket response

/-! ## 2. The handler -/

/-- The search through `mDisks`; `found` is set by a match and does not end it. -/
def forDisks (isMatch : SimIopDisk → Bool) (body : SimIopDisk → DiskCluster → Except Exn DiskCluster) :
    List SimIopDisk → Bool → DiskCluster → Except Exn (Bool × DiskCluster)
  | [], found, c => .ok (found, c)
  | disk :: disks, found, c =>
    if isMatch disk then (body disk c).bind (forDisks isMatch body disks true)
    else forDisks isMatch body disks found c

/-- The assertions on the address and the memory type. -/
def isSupported (r : DPacket) : Bool :=
  r.head == 0 && r.sector == 0 && r.targetMemoryType == 0

/-- The body of the search for reads. -/
def readBody (mMemSizeInWords : Nat) (stale : Nat → BitVec 8) (aPacket : IopEPacket) (r : DPacket)
    (disk : SimIopDisk) (c : DiskCluster) : Except Exn DiskCluster :=
  if !isSupported r then .error .assertion
  else do
    let mem ← disk.read mMemSizeInWords stale (c.devices.images disk.mImageFileName) r.cylinder
      r.sectorCnt r.targetMemoryAddr c.devices.mMemory
    respond aPacket (aPacket.getLength.toNat - 1) 0o002 (c.setMemory mem)

/-- The body of the search for writes. -/
def writeBody (mMemSizeInWords : Nat) (aPacket : IopEPacket) (r : DPacket) (disk : SimIopDisk)
    (c : DiskCluster) : Except Exn DiskCluster :=
  if !isSupported r then .error .assertion
  else do
    let image ← disk.write mMemSizeInWords (c.devices.images disk.mImageFileName) r.cylinder
      r.sectorCnt r.targetMemoryAddr c.devices.mMemory
    respond aPacket aPacket.getLength.toNat 0o002 (c.setImage disk.mImageFileName image)

/-- The search, which has to find a disk. -/
def searchDisks (isMatch : SimIopDisk → Bool)
    (body : SimIopDisk → DiskCluster → Except Exn DiskCluster) (c : DiskCluster) :
    Except Exn DiskCluster := do
  let r ← forDisks isMatch body c.devices.mDisks false c
  if !r.1 then .error .assertion else return r.2

def handleIosEDPacket (mMemSizeInWords : Nat) (stale : Nat → BitVec 8) (aPacket : IopEPacket)
    (c : DiskCluster) : Except Exn DiskCluster := do
  let r ← DPacket.decode aPacket
  if r.requestCode = 0o002 then
    searchDisks (fun disk => disk.mPysicalDeviceId == r.channel.setWidth 32 &&
        disk.mIopNumber == r.iopNumber && disk.mUnit == r.unit)
      (readBody mMemSizeInWords stale aPacket r) c
  else if r.requestCode = 0o003 ∨ r.requestCode = 0o004 then
    searchDisks (fun disk => disk.mPysicalDeviceId == r.channel.setWidth 32)
      (writeBody mMemSizeInWords aPacket r) c
  else if r.requestCode ∈ [0o012, 0o011, 0o177, 0o174, 0o060, 0o061, 0o065, 0o001] then
    respond aPacket aPacket.getLength.toNat (BitVec.ofNat 64 r.requestCode) c
  else .error .assertion

/-- A packet, or the mainframe changing its memory. -/
inductive Event where
  | packet (aPacket : IopEPacket)
  | mainframe (mem : Nat → BitVec 8)

def step (mMemSizeInWords : Nat) (stale : Nat → BitVec 8) :
    Event → DiskCluster → Except Exn DiskCluster
  | .packet aPacket, c => handleIosEDPacket mMemSizeInWords stale aPacket c
  | .mainframe mem, c => .ok (c.setMemory mem)

/-! ## 3. One response -/

theorem length_setData {p q : IopEPacket} {i : Nat} {w : CInt} (h : p.setData i w = .ok q) :
    q.payload.length = p.payload.length := by
  unfold IopEPacket.setData at h
  split at h
  · obtain rfl := Except.ok.inj h
    simp
  · exact absurd h (by simp)

theorem setData_ok {p : IopEPacket} {i : Nat} (h : i < p.payload.length) (w : CInt) :
    ∃ q, p.setData i w = .ok q ∧ q.payload.length = p.payload.length := by
  have hset : p.setData i w = .ok { p with payload := p.payload.set i w } := if_pos h
  exact ⟨_, hset, length_setData hset⟩

theorem data_ok {p : IopEPacket} {i : Nat} (h : i < p.payload.length) :
    p.data i = .ok p.payload[i] := by
  rw [IopEPacket.data, List.getElem?_eq_getElem h]

theorem setField_ok {p : IopEPacket} (h : 0 < p.payload.length) (i j : Nat) (v : CInt) :
    ∃ q, setField i j v p = .ok q ∧ q.payload.length = p.payload.length := by
  obtain ⟨q, hq, hlen⟩ := setData_ok h (setBits p.payload[0] i j v)
  refine ⟨q, ?_, hlen⟩
  rw [setField, data_ok h]
  exact hq

theorem copyData_ok {aPacket : IopEPacket} {cnt : Nat} (response : IopEPacket)
    (hfrom : cnt ≤ aPacket.payload.length) (hto : cnt ≤ response.payload.length) :
    ∃ q, copyData aPacket cnt response = .ok q ∧
      q.payload.length = response.payload.length := by
  induction cnt with
  | zero => exact ⟨response, rfl, rfl⟩
  | succ n ih =>
    obtain ⟨q, hq, hlen⟩ := ih (by omega) (by omega)
    obtain ⟨q', hq', hlen'⟩ := setData_ok (p := q) (i := n) (by omega)
      (aPacket.payload.get ⟨n, by omega⟩)
    refine ⟨q', ?_, by omega⟩
    have hlast : copyData aPacket (n + 1) response =
        (copyData aPacket n response).bind fun r => (aPacket.data n).bind (r.setData n) := by
      unfold copyData
      rw [List.range_succ, List.foldlM_append]
      refine bind_congr fun r => ?_
      simp only [List.foldlM_cons, List.foldlM_nil, bind_pure]
      rfl
    rw [hlast, hq]
    simp only [Except.bind, data_ok (show n < aPacket.payload.length by omega)]
    exact hq'

theorem respond_ok (aPacket : IopEPacket) (cnt : Nat) (hfrom : cnt ≤ aPacket.payload.length)
    (hcnt : cnt ≤ 68) (requestCode : CInt) (c : DiskCluster) :
    ∃ response, respond aPacket cnt requestCode c = .ok (c.sendPacket response) := by
  have hsize : ((c.generateResponse aPacket).setSize 68).payload.length = 68 := by
    simp only [IopEPacket.setSize, IopEPacket.setLength, List.length_append, List.length_take,
      List.length_replicate]
    omega
  obtain ⟨q₁, hq₁, hlen₁⟩ := copyData_ok ((c.generateResponse aPacket).setSize 68) hfrom (by omega)
  obtain ⟨q₂, hq₂, hlen₂⟩ := setField_ok (p := q₁) (by omega) 56 63 (BitVec.ofNat 64 'd'.toNat)
  obtain ⟨q₃, hq₃, hlen₃⟩ := setField_ok (p := q₂) (by omega) 40 47 requestCode
  obtain ⟨q₄, hq₄, -⟩ := setField_ok (p := q₃) (by omega) 32 39 0o000
  refine ⟨q₄, ?_⟩
  rw [respond, hq₁]
  simp only [bind, Except.bind, hq₂, hq₃, hq₄]
  rfl

/-! ## 4. The search -/

variable {body : SimIopDisk → DiskCluster → Except Exn DiskCluster} {isMatch : SimIopDisk → Bool}

theorem forDisks_none {disks : List SimIopDisk}
    (h : ∀ d ∈ disks, isMatch d = false) (found : Bool) (c : DiskCluster) :
    forDisks isMatch body disks found c = .ok (found, c) := by
  induction disks with
  | nil => rfl
  | cons d ds ih =>
    rw [forDisks, h d (by simp), if_neg (by simp), ih fun e he => h e (by simp [he])]

theorem forDisks_one {disks : List SimIopDisk}
    {d : SimIopDisk} (hnodup : disks.Nodup) (hmem : d ∈ disks)
    (hmatch : ∀ e ∈ disks, isMatch e = true ↔ e = d) {c c' : DiskCluster}
    (hbody : body d c = .ok c') (found : Bool) :
    forDisks isMatch body disks found c = .ok (true, c') := by
  induction disks with
  | nil => exact absurd hmem List.not_mem_nil
  | cons e es ih =>
    obtain ⟨hnot, hnodup⟩ := List.nodup_cons.mp hnodup
    by_cases he : e = d
    · obtain rfl := he
      have hrest : ∀ d ∈ es, isMatch d = false := by
        intro d hd
        have hne : ¬ d = e := fun h => hnot (h ▸ hd)
        exact Bool.eq_false_iff.mpr fun h => hne ((hmatch d (by simp [hd])).mp h)
      rw [forDisks, if_pos ((hmatch e (by simp)).mpr rfl), hbody]
      exact forDisks_none hrest true c'
    · have hskip : ¬ isMatch e = true := fun h => he ((hmatch e (by simp)).mp h)
      rw [forDisks, if_neg hskip]
      exact ih hnodup ((List.mem_cons.mp hmem).resolve_left fun h => he h.symm)
        fun f hf => hmatch f (by simp [hf])

theorem searchDisks_one {c c' : DiskCluster}
    {d : SimIopDisk} (hnodup : c.devices.mDisks.Nodup) (hmem : d ∈ c.devices.mDisks)
    (hmatch : ∀ e ∈ c.devices.mDisks, isMatch e = true ↔ e = d) (hbody : body d c = .ok c') :
    searchDisks isMatch body c = .ok c' := by
  rw [searchDisks, forDisks_one hnodup hmem hmatch hbody]
  rfl

/-! ## 5. The disks by their names -/

/-- The triple that names a disk. -/
abbrev DiskId := BitVec 32 × BitVec 8 × BitVec 8

end DiskCluster

def SimIopDisk.id (d : SimIopDisk) : DiskCluster.DiskId :=
  (d.mPysicalDeviceId, d.mIopNumber, d.mUnit)

/-- The triple in a packet. -/
def DPacket.diskId (r : DPacket) : DiskCluster.DiskId :=
  (r.channel.setWidth 32, r.iopNumber, r.unit)

namespace DiskCluster

/-- What a request comes to. -/
inductive Entry where
  | write (id : DiskId) (pos : Nat) (bytes : List (BitVec 8))
  | read
  | none

/-- The disks by their names; `written` is the last byte written, for each place of a disk. -/
structure Ledger where
  image : DiskId → List (BitVec 8)
  written : DiskId → Nat → Option (BitVec 8)
  answers : Nat

namespace Ledger

def follow (l : Ledger) : Entry → Ledger
  | .write id pos bytes =>
    { image := Function.update l.image id (FileStream.putBytes (l.image id) pos bytes)
      written := Function.update l.written id fun i =>
        if pos ≤ i ∧ i < pos + bytes.length then bytes[i - pos]? else l.written id i
      answers := l.answers + 1 }
  | .read => { l with answers := l.answers + 1 }
  | .none => l

/-- What was last written is what the disk holds. -/
def Coherent (l : Ledger) : Prop :=
  ∀ id i b, l.written id i = some b → (l.image id)[i]? = some b

theorem Coherent.follow {l : Ledger} (h : l.Coherent) (e : Entry) : (l.follow e).Coherent := by
  cases e with
  | read => exact h
  | none => exact h
  | write id pos bytes =>
    intro id' i b hb
    by_cases hid : id' = id
    · obtain rfl := hid
      simp only [Ledger.follow, Function.update_self] at hb ⊢
      by_cases hin : pos ≤ i ∧ i < pos + bytes.length
      · obtain ⟨k, rfl⟩ := Nat.exists_eq_add_of_le hin.1
        rw [if_pos hin, Nat.add_sub_cancel_left] at hb
        rw [FileStream.getElem?_putBytes_inside (by omega), hb]
      · rw [if_neg hin] at hb
        exact FileStream.getElem?_putBytes_outside (h _ _ _ hb) (by omega)
    · simp only [Ledger.follow, Function.update_of_ne hid] at hb ⊢
      exact h _ _ _ hb

end Ledger

/-! ## 6. Requests that can be served -/

/-- The triples are distinct, and every disk has an image file of its own. -/
structure Configured (c : DiskCluster) : Prop where
  ids : (c.devices.mDisks.map SimIopDisk.id).Nodup
  images : (c.devices.mDisks.map SimIopDisk.mImageFileName).Nodup

/-- A read or write request for the disk `d` with an address that exists. -/
structure WellFormed (mMemSizeInWords : Nat) (c : DiskCluster) (aPacket : IopEPacket) (r : DPacket)
    (d : SimIopDisk) : Prop where
  decoded : DPacket.decode aPacket = .ok r
  code : r.requestCode ∈ [0o002, 0o003, 0o004]
  length : aPacket.getLength.toNat = aPacket.payload.length
  short : aPacket.payload.length ≤ if r.requestCode = 0o002 then 69 else 68
  supported : isSupported r
  present : d ∈ c.devices.mDisks
  named : d.id = r.diskId
  cylinder : d.cylinderOf r.cylinder < d.mNumCylinders
  range : InRange mMemSizeInWords r.targetMemoryAddr (d.accessSize r.sectorCnt)

/-- The channel of a write has one disk. -/
def Alone (c : DiskCluster) (r : DPacket) : Prop :=
  r.requestCode ≠ 0o002 →
    ∀ d ∈ c.devices.mDisks, d.mPysicalDeviceId = r.channel.setWidth 32 → d.id = r.diskId

/-- Every packet is a request that can be served. -/
def Requested (mMemSizeInWords : Nat) (c : DiskCluster) : Event → Prop
  | .packet aPacket => ∃ r d, WellFormed mMemSizeInWords c aPacket r d
  | .mainframe _ => True

/-- The same, and writes go to a channel with one disk. -/
def Served (mMemSizeInWords : Nat) (c : DiskCluster) : Event → Prop
  | .packet aPacket => ∃ r d, WellFormed mMemSizeInWords c aPacket r d ∧ Alone c r
  | .mainframe _ => True

/-- The bytes a write takes from memory. -/
def requestedBytes (c : DiskCluster) (r : DPacket) (d : SimIopDisk) : List (BitVec 8) :=
  (List.range (d.mSectorSize * r.sectorCnt)).map fun k =>
    c.devices.mMemory (r.targetMemoryAddr.toNat * 8 + k)

/-- The disk `d` with these bytes in it. -/
def overwritten (c : DiskCluster) (r : DPacket) (d : SimIopDisk) : DiskCluster :=
  c.setImage d.mImageFileName (FileStream.putBytes (c.devices.images d.mImageFileName)
    (d.mSectorSize * r.cylinder) (requestedBytes c r d))

def view (c : DiskCluster) : Event → Entry
  | .mainframe _ => .none
  | .packet aPacket =>
    match DPacket.decode aPacket with
    | .error _ => .none
    | .ok r =>
      match c.devices.mDisks.find? fun d => d.id = r.diskId with
      | none => .none
      | some d =>
        if r.requestCode = 0o002 then .read
        else .write r.diskId (d.mSectorSize * r.cylinder) (requestedBytes c r d)

/-- The ledger before the first request. -/
def start (c : DiskCluster) : Ledger where
  image := fun id =>
    match c.devices.mDisks.find? fun d => d.id = id with
    | none => []
    | some d => c.devices.images d.mImageFileName
  written := fun _ _ => none
  answers := c.devices.sent.length

/-- The cluster has the disks of `c₀`, as the ledger has them. -/
structure Keeps (c₀ c : DiskCluster) (l : Ledger) : Prop where
  disks : c.devices.mDisks = c₀.devices.mDisks
  images : ∀ d ∈ c₀.devices.mDisks, c.devices.images d.mImageFileName = l.image d.id
  answers : c.devices.sent.length = l.answers
  coherent : l.Coherent

/-- A read returns what was last written. -/
def Returns (mMemSizeInWords : Nat) (stale : Nat → BitVec 8) (c : DiskCluster) (l : Ledger) : Prop :=
  ∀ aPacket r d, WellFormed mMemSizeInWords c aPacket r d → r.requestCode = 0o002 →
    ∃ c', handleIosEDPacket mMemSizeInWords stale aPacket c = .ok c' ∧
      ∀ k < 8 * d.accessSize r.sectorCnt, ∀ b,
        l.written r.diskId (d.mSectorSize * r.cylinder + k) = some b →
        c'.devices.mMemory (r.targetMemoryAddr.toNat * 8 + k) = b

theorem Configured.nodup {c : DiskCluster} (h : Configured c) : c.devices.mDisks.Nodup :=
  List.Nodup.of_map _ h.ids

theorem Configured.eq_of_id {c : DiskCluster} (h : Configured c) {d e : SimIopDisk}
    (hd : d ∈ c.devices.mDisks) (he : e ∈ c.devices.mDisks) (hid : d.id = e.id) : d = e :=
  List.inj_on_of_nodup_map h.ids hd he hid

theorem Configured.eq_of_image {c : DiskCluster} (h : Configured c) {d e : SimIopDisk}
    (hd : d ∈ c.devices.mDisks) (he : e ∈ c.devices.mDisks)
    (hname : d.mImageFileName = e.mImageFileName) : d = e :=
  List.inj_on_of_nodup_map h.images hd he hname

theorem Configured.find_eq {c : DiskCluster} (h : Configured c) {d : SimIopDisk}
    (hd : d ∈ c.devices.mDisks) :
    (c.devices.mDisks.find? fun e => e.id = d.id) = some d := by
  rcases hfind : c.devices.mDisks.find? (fun e => e.id = d.id) with - | e
  · exact absurd (List.find?_eq_none.mp hfind d hd) (by simp)
  · have hid : e.id = d.id := by simpa using List.find?_some hfind
    obtain rfl := h.eq_of_id (List.mem_of_find?_eq_some hfind) hd hid
    exact hfind

theorem keeps_start {c : DiskCluster} (h : Configured c) : Keeps c c (start c) where
  disks := rfl
  images := fun d hd => by
    rw [start]
    simp only [h.find_eq hd]
  answers := rfl
  coherent := fun _ _ _ hb => absurd hb (by simp [start])

section request

variable {mMemSizeInWords : Nat} {stale : Nat → BitVec 8} {c : DiskCluster} {aPacket : IopEPacket}
  {r : DPacket} {d : SimIopDisk}

/-- **A read**: the sectors of the disk go to memory, and one response to the mainframe. -/
theorem handle_read (stale : Nat → BitVec 8) (hc : Configured c) (h : WellFormed mMemSizeInWords c aPacket r d)
    (hcode : r.requestCode = 0o002) :
    ∃ mem' response, handleIosEDPacket mMemSizeInWords stale aPacket c =
        .ok (sendPacket (setMemory c mem') response) ∧
      SimIopDisk.Delivered (c.devices.images d.mImageFileName) (d.mSectorSize * r.cylinder)
        r.targetMemoryAddr (d.accessSize r.sectorCnt) c.devices.mMemory mem' := by
  obtain ⟨mem', hread, hdelivered⟩ := d.read_ok stale (c.devices.images d.mImageFileName)
    h.cylinder h.range c.devices.mMemory
  have hlen := h.length
  have hshort := h.short
  rw [if_pos hcode] at hshort
  obtain ⟨response, hrespond⟩ := respond_ok aPacket (aPacket.getLength.toNat - 1) (by omega)
    (by omega) 0o002 (setMemory c mem')
  refine ⟨mem', response, ?_, hdelivered⟩
  have hbody : readBody mMemSizeInWords stale aPacket r d c =
      .ok (sendPacket (setMemory c mem') response) := by
    rw [readBody, h.supported, if_neg (by simp), hread]
    exact hrespond
  rw [handleIosEDPacket, h.decoded]
  refine Eq.trans (if_pos hcode) (searchDisks_one hc.nodup h.present (fun e he => ?_) hbody)
  have hid : e.id = d.id ↔ e = d := ⟨hc.eq_of_id he h.present, fun h => by rw [h]⟩
  rw [← hid, h.named, SimIopDisk.id, DPacket.diskId]
  simp [and_assoc]

/-- **A write**: the memory goes to the sectors of the disk, and one response to the mainframe. -/
theorem handle_write (stale : Nat → BitVec 8) (hc : Configured c) (h : WellFormed mMemSizeInWords c aPacket r d)
    (halone : Alone c r) (hcode : r.requestCode ≠ 0o002) :
    ∃ response, handleIosEDPacket mMemSizeInWords stale aPacket c =
      .ok ((c.overwritten r d).sendPacket response) := by
  have hwrite := d.write_ok (c.devices.images d.mImageFileName) h.cylinder h.range
    c.devices.mMemory
  have hshort := h.short
  rw [if_neg hcode] at hshort
  obtain ⟨response, hrespond⟩ := respond_ok aPacket aPacket.getLength.toNat h.length.le
    (h.length.trans_le hshort) 0o002 (c.overwritten r d)
  refine ⟨response, ?_⟩
  have hbody : writeBody mMemSizeInWords aPacket r d c =
      .ok ((c.overwritten r d).sendPacket response) := by
    rw [writeBody, h.supported, if_neg (by simp), hwrite]
    exact hrespond
  have hcodes : r.requestCode = 0o003 ∨ r.requestCode = 0o004 := by
    have hmem := h.code
    simp only [List.mem_cons, List.not_mem_nil, or_false] at hmem
    exact hmem.resolve_left hcode
  rw [handleIosEDPacket, h.decoded]
  refine Eq.trans (if_neg hcode) (Eq.trans (if_pos hcodes)
    (searchDisks_one hc.nodup h.present (fun e he => ?_) hbody))
  refine ⟨fun hmatch => ?_, ?_⟩
  · exact hc.eq_of_id he h.present ((halone hcode e he (by simpa using hmatch)).trans h.named.symm)
  · rintro rfl
    have hid := h.named
    simp only [SimIopDisk.id, DPacket.diskId, Prod.mk.injEq] at hid
    simp [hid.1]

theorem view_packet (hc : Configured c) (h : WellFormed mMemSizeInWords c aPacket r d) :
    view c (.packet aPacket) = if r.requestCode = 0o002 then .read
      else .write r.diskId (d.mSectorSize * r.cylinder) (requestedBytes c r d) := by
  have hfind := hc.find_eq h.present
  rw [h.named] at hfind
  rw [view, h.decoded]
  simp only [hfind]

end request

/-! ## 7. Runs -/

section run

variable {mMemSizeInWords : Nat} {stale : Nat → BitVec 8} {c₀ c : DiskCluster} {l : Ledger}

theorem Keeps.configured (h : Keeps c₀ c l) (hc : Configured c₀) : Configured c :=
  ⟨by rw [h.disks]; exact hc.ids, by rw [h.disks]; exact hc.images⟩

/-- **One event**: the ledger can follow it. -/
theorem step_keeps (hc : Configured c₀) (h : Keeps c₀ c l) (e : Event)
    (hserved : Served mMemSizeInWords c e) :
    ∃ c', step mMemSizeInWords stale e c = .ok c' ∧ Keeps c₀ c' (l.follow (view c e)) := by
  cases e with
  | mainframe mem => exact ⟨c.setMemory mem, rfl, h.disks, h.images, h.answers, h.coherent⟩
  | packet aPacket =>
    obtain ⟨r, d, hwell, halone⟩ := hserved
    have hcc := h.configured hc
    have hd : d ∈ c₀.devices.mDisks := h.disks ▸ hwell.present
    have hview := view_packet hcc hwell
    by_cases hcode : r.requestCode = 0o002
    · obtain ⟨mem', response, hrun, -⟩ := handle_read stale hcc hwell hcode
      rw [hview, if_pos hcode]
      refine ⟨_, hrun, h.disks, h.images, ?_, h.coherent.follow _⟩
      simp [sendPacket, setMemory, Ledger.follow, h.answers]
    · obtain ⟨response, hrun⟩ := handle_write stale hcc hwell halone hcode
      rw [hview, if_neg hcode]
      refine ⟨_, hrun, h.disks, fun e he => ?_, ?_, h.coherent.follow _⟩
      · by_cases hed : e = d
        · obtain rfl := hed
          simp [sendPacket, overwritten, setImage, Ledger.follow, ← hwell.named, h.images e he]
        · have hname : e.mImageFileName ≠ d.mImageFileName := fun hn =>
            hed (hc.eq_of_image he hd hn)
          have hid : e.id ≠ r.diskId := fun hi => hed (hc.eq_of_id he hd (hi.trans hwell.named.symm))
          simp [sendPacket, overwritten, setImage, Ledger.follow, hname, hid, h.images e he]
      · simp [sendPacket, overwritten, setImage, Ledger.follow, h.answers]

theorem Keeps.returns (h : Keeps c₀ c l) (hc : Configured c₀) :
    Returns mMemSizeInWords stale c l := by
  intro aPacket r d hwell hcode
  obtain ⟨mem', response, hrun, hdelivered⟩ :=
    handle_read stale (h.configured hc) hwell hcode
  have himage := h.images d (h.disks ▸ hwell.present)
  refine ⟨_, hrun, fun k hk b hb => hdelivered.inside k hk b ?_⟩
  rw [himage, hwell.named]
  exact h.coherent _ _ _ hb

end run

/-- **The disks**: where every write goes to a channel that has one disk, no request fails, each
    changes the disk it names and no other, is answered once, and a read returns what was last
    written. -/
theorem routed (mMemSizeInWords : Nat) (stale : Nat → BitVec 8) (es : List Event) (c : DiskCluster)
    (hc : Configured c) (h : Along (step mMemSizeInWords stale) (Served mMemSizeInWords) es c) :
    ∃ c', run (step mMemSizeInWords stale) es c = .ok c' ∧
      Keeps c c' ((trace (step mMemSizeInWords stale) view es c).foldl
        (fun l a => l.follow a) (start c)) ∧
      Returns mMemSizeInWords stale c' ((trace (step mMemSizeInWords stale) view es c).foldl
        (fun l a => l.follow a) (start c)) := by
  obtain ⟨c', hrun, hkeeps⟩ : ∃ c', run (step mMemSizeInWords stale) es c = .ok c' ∧
      Keeps c c' ((trace (step mMemSizeInWords stale) view es c).foldl
        (fun l a => l.follow a) (start c)) := by
    refine EventRun.run_simulates (P := Served mMemSizeInWords) ?_ (keeps_start hc) h
    exact fun c' l e hk hs => step_keeps hc hk e hs
  exact ⟨c', hrun, hkeeps, hkeeps.returns hc⟩

/-- A disk of four sectors of 128 words. -/
def smallDisk (mImageFileName : String) (mUnit : BitVec 8) : SimIopDisk :=
  { mImageFileName := mImageFileName
    mPysicalDeviceId := 0, mIopNumber := 0, mUnit := mUnit
    mNumHeads := 1, mNumSectors := 1, mNumCylinders := 4, mSectorSize := 1024
    heads_pos := Nat.one_pos, sectors_pos := Nat.one_pos, cylinders_pos := by decide
    sectorSize_pos := by decide, sectorSize_mod := by decide }

/-- A cluster with these disks, empty images, and a memory of ones. -/
def cluster (disks : List SimIopDisk) : DiskCluster :=
  { mSeqSent := 0, mSeqReceived := 0, mPacketsReceived := 0
    devices := { mDisks := disks, images := fun _ => [], mMemory := fun _ => 1, sent := [] } }

/-- Unit 0 of a channel. -/
def unit0 (mImageFileName : String) (channel : Fin 3) : SimIopDisk :=
  { smallDisk mImageFileName 0 with mPysicalDeviceId := BitVec.ofNat 32 channel.val }

/-- Writes one sector of it. -/
def writeUnit0 (channel : Fin 3) : IopEPacket :=
  { header := setBits 0 48 57 6
    payload := [setBits (setBits 0 40 47 0o003) 16 20 (BitVec.ofNat 64 channel.val), 0,
      setBits 0 0 15 1, 0, 0, setBits 0 48 57 6] }

def writeUnit0Request (channel : Fin 3) : DPacket :=
  { channel := BitVec.ofNat 8 channel.val, iopNumber := 0, unit := 0, requestCode := 0o003
    cylinder := 0, head := 0, sector := 0, sectorCnt := 1
    targetMemoryType := 0, targetMemoryAddr := 0 }

theorem wellFormed_writeUnit0 {c : DiskCluster} (mImageFileName : String) (channel : Fin 3)
    (h : unit0 mImageFileName channel ∈ c.devices.mDisks) :
    WellFormed 128 c (writeUnit0 channel) (writeUnit0Request channel)
      (unit0 mImageFileName channel) := by
  have hrange : InRange 128 0 (1024 * 1 / 8) := ⟨by decide, by decide⟩
  have hcylinder : (unit0 mImageFileName channel).cylinderOf 0 < 4 := by
    rw [SimIopDisk.cylinderOf, Nat.zero_div, Nat.zero_div]
    decide
  match channel, h with
  | 0, h => exact ⟨rfl, by decide, by decide, by decide, by decide, h, rfl, hcylinder, hrange⟩
  | 1, h => exact ⟨rfl, by decide, by decide, by decide, by decide, h, rfl, hcylinder, hrange⟩
  | 2, h => exact ⟨rfl, by decide, by decide, by decide, by decide, h, rfl, hcylinder, hrange⟩

/-- Three disks on channels of their own. -/
def threeChannels : DiskCluster := cluster [unit0 "disk0" 0, unit0 "disk1" 1, unit0 "disk2" 2]

/-- The first two are written. -/
def writes : List Event := [.packet (writeUnit0 1), .packet (writeUnit0 0)]

theorem writes_served : Along (step 128 fun _ => 0) (Served 128) writes threeChannels := by
  have hone : unit0 "disk1" 1 ∈ threeChannels.devices.mDisks :=
    List.mem_cons_of_mem _ List.mem_cons_self
  have hzero : unit0 "disk0" 0 ∈ threeChannels.devices.mDisks := List.mem_cons_self
  refine .cons ⟨_, _, wellFormed_writeUnit0 "disk1" 1 hone, fun _ => ?_⟩ rfl
    (.one ⟨_, _, wellFormed_writeUnit0 "disk0" 0 hzero, fun _ => ?_⟩)
  · decide
  · show ∀ d ∈ threeChannels.devices.mDisks, _
    decide

theorem routed_writes :
    ∃ c', run (step 128 fun _ => 0) writes threeChannels = .ok c' ∧
      Keeps threeChannels c' ((trace (step 128 fun _ => 0) view writes threeChannels).foldl
        (fun l a => l.follow a) (start threeChannels)) ∧
      Returns 128 (fun _ => 0) c' ((trace (step 128 fun _ => 0) view writes threeChannels).foldl
        (fun l a => l.follow a) (start threeChannels)) :=
  routed 128 (fun _ => 0) writes threeChannels ⟨by decide, by decide⟩ writes_served

/-- Two disks on one channel. -/
def twoUnits : DiskCluster := cluster [smallDisk "unit0" 0, smallDisk "unit1" 1]

theorem run_twoUnits : ∃ c', run (step 128 fun _ => 0) [.packet (writeUnit0 0)] twoUnits = .ok c' ∧
    c'.devices.sent.length = 2 ∧ (c'.devices.images "unit1")[0]? = some 1 :=
  ⟨_, rfl, by decide +kernel, by decide +kernel⟩

/-- A write to unit 0 is answered twice, and changes unit 1. -/
theorem not_routed_twoUnits : ¬ ∀ (mMemSizeInWords : Nat) (stale : Nat → BitVec 8)
    (es : List Event) (c : DiskCluster), Configured c →
      Along (step mMemSizeInWords stale) (Requested mMemSizeInWords) es c →
        ∃ c', run (step mMemSizeInWords stale) es c = .ok c' ∧
          Keeps c c' ((trace (step mMemSizeInWords stale) view es c).foldl
            (fun l a => l.follow a) (start c)) := by
  intro h
  have hrequested : Along (step 128 fun _ => 0) (Requested 128) [.packet (writeUnit0 0)] twoUnits :=
    ⟨⟨_, _, wellFormed_writeUnit0 "unit0" 0 List.mem_cons_self⟩,
      fun _ _ => trivial⟩
  obtain ⟨c', hrun, hkeeps⟩ := h 128 (fun _ => 0) _ twoUnits ⟨by decide, by decide⟩ hrequested
  obtain ⟨c₁, hrun₁, hsent, -⟩ := run_twoUnits
  obtain rfl : c₁ = c' := Except.ok.inj (hrun₁.symm.trans hrun)
  have hanswers := hkeeps.answers
  rw [hsent] at hanswers
  exact absurd hanswers (by decide)

end DiskCluster
end CraySim
