import KmControl.CheckedVideo

/-!
The checked reassembler on the lists of a typed block does what the typed one
does: the lists have the lengths that every access needs.
-/
namespace KmControl.CheckedBlocks

open ByteFields CheckedVideo GsProto MoonVideo

section Access

variable {α : Type*} {n m : ℕ}

theorem headOf_ofFn (f : Fin (n + m) → α) :
    headOf (List.ofFn f) n = some (List.ofFn fun k => f (Fin.castAdd m k)) := by
  have hlen : n ≤ (List.ofFn f).length := by
    rw [List.length_ofFn]
    exact Nat.le_add_right n m
  rw [headOf, if_pos hlen, List.ofFn_add, List.take_left' List.length_ofFn]
  rfl

theorem getElem?_ofFn_lt (f : Fin n → α) {i : ℕ} (hi : i < n) :
    (List.ofFn f)[i]? = some (f ⟨i, hi⟩) := by
  rw [List.getElem?_ofFn, dif_pos hi]

theorem setAt_ofFn (f : Fin n → α) (i : Fin n) (v : α) :
    setAt (List.ofFn f) i.val v = some (List.ofFn (Function.update f i v)) := by
  have hlen : i.val < (List.ofFn f).length := by
    rw [List.length_ofFn]
    exact i.isLt
  rw [setAt, if_pos hlen, Option.some.injEq]
  apply List.ext_getElem
  · rw [List.length_set, List.length_ofFn, List.length_ofFn]
  · intro k hk _
    rw [List.getElem_set, List.getElem_ofFn, List.getElem_ofFn]
    by_cases heq : i.val = k
    · subst heq
      rw [if_pos rfl, Function.update_self]
    · rw [if_neg heq, Function.update_of_ne fun h => heq (congrArg Fin.val h).symm]

theorem checkedSub_eq {a b : ℕ} (h : b ≤ a) : checkedSub a b = some (a - b) := if_pos h

theorem checkedAdd_eq {a b : UInt16} (h : a.toNat + b.toNat < 2 ^ 16) :
    checkedAdd a b = some (a + b) := if_pos h

theorem length_filter_ofFn (f : Fin n → Option α) :
    ((List.ofFn f).filter Option.isSome).length =
      (Finset.univ.filter fun i => (f i).isSome).card := by
  have hset : (Finset.univ.filter fun i => (f i).isSome) =
      ((List.finRange n).filter (Option.isSome ∘ f)).toFinset := by
    ext i
    simp
  rw [hset, List.toFinset_card_of_nodup ((List.nodup_finRange n).filter _), List.ofFn_eq_map,
    List.filter_map, List.length_map]

end Access

section Headers

variable {buf : Bytes}

/-- Within its length a buffer has a byte. -/
theorem getElem?_byteAt {i : ℕ} (h : i < buf.length) : buf[i]? = some (byteAt buf i) := by
  rw [byteAt, List.getD_eq_getElem?_getD, List.getElem?_eq_getElem h, Option.getD_some]

theorem getElem?_take_byteAt {n i : ℕ} (h : n ≤ buf.length) (hi : i < n) :
    (buf.take n)[i]? = some (byteAt buf i) := by
  rw [List.getElem?_take_of_lt hi, getElem?_byteAt (hi.trans_le h)]

theorem readRtp_eq (buf : Bytes) : readRtp buf = some (RtpHeader.read buf) := by
  unfold readRtp RtpHeader.read
  split
  · rename_i h
    have hbyte : ∀ i, i < rtpHeaderSize → (buf.take rtpHeaderSize)[i]? = some (byteAt buf i) :=
      fun i hi => getElem?_take_byteAt h hi
    unfold rtpHeaderSize at hbyte
    simp [be16At, be32At, rtpHeaderSize, hbyte]
  · rfl

theorem readNv_eq (buf : Bytes) : readNv buf = some (NvVideoPacket.read buf) := by
  unfold readNv NvVideoPacket.read
  split
  · rename_i h
    have hbyte : ∀ i, i < nvVideoPacketSize →
        (buf.take nvVideoPacketSize)[i]? = some (byteAt buf i) :=
      fun i hi => getElem?_take_byteAt h hi
    unfold nvVideoPacketSize at hbyte
    simp [le32At, nvVideoPacketSize, hbyte]
  · rfl

theorem readNvFromShard_eq (buf : Bytes) :
    readNvFromShard buf = some (NvVideoPacket.readFromShard buf) := by
  unfold readNvFromShard NvVideoPacket.readFromShard
  split
  · exact readNv_eq _
  · rfl

theorem readFrameHeader_eq (buf : Bytes) :
    readFrameHeader buf = some (VideoFrameHeader.read buf) := by
  unfold readFrameHeader VideoFrameHeader.read
  split
  · rename_i h
    have hbyte : ∀ i, i < videoFrameHeaderSize →
        (buf.take videoFrameHeaderSize)[i]? = some (byteAt buf i) :=
      fun i hi => getElem?_take_byteAt h hi
    unfold videoFrameHeaderSize at hbyte
    simp [le16At, le32At, videoFrameHeaderSize, hbyte]
  · rfl

end Headers

section Blocks

/-- The lists of a typed block. -/
def rawBlock (blk : BlockAsm) : Block where
  dataShards := blk.dataShards
  fecPercentage := blk.fecPercentage
  slots := List.ofFn blk.slots
  received := List.ofFn blk.received
  receivedData := blk.receivedData
  receivedParity := blk.receivedParity
  stats := blk.stats

variable (rs : FecRs) (blk : BlockAsm)

theorem rawBlock_new (d pct : ℕ) (hpos : 0 < d) (hle : d ≤ maxShards) :
    Block.new d (parityShardCount d pct) pct = rawBlock (BlockAsm.new d pct hpos hle) := by
  unfold Block.new rawBlock BlockAsm.new
  rw [List.ofFn_const, List.ofFn_const]

theorem length_slots : (rawBlock blk).slots.length = blk.dataShards + blk.paritySlots :=
  List.length_ofFn

theorem headOf_slots : headOf (rawBlock blk).slots (rawBlock blk).dataShards =
    some (List.ofFn fun k => blk.slots (Fin.castAdd blk.paritySlots k)) :=
  headOf_ofFn blk.slots

theorem paritySlots_raw : (rawBlock blk).paritySlots = some blk.paritySlots := by
  have hle : blk.dataShards ≤ (rawBlock blk).slots.length := by
    rw [length_slots]
    exact Nat.le_add_right _ _
  refine (checkedSub_eq hle).trans ?_
  rw [length_slots, Nat.add_sub_cancel_left]

theorem dataComplete_raw : (rawBlock blk).dataComplete = some blk.dataComplete := by
  have hall : (List.ofFn fun k => blk.slots (Fin.castAdd blk.paritySlots k)).all Option.isSome =
      blk.dataComplete := by
    rw [BlockAsm.dataComplete, Bool.eq_iff_iff, List.all_eq_true, List.forall_mem_ofFn_iff,
      decide_eq_true_iff]
  rw [Block.dataComplete, headOf_slots, ← hall]
  rfl

theorem fecStatus_raw (k : UInt32) (b n : ℕ) :
    (rawBlock blk).fecStatus k b n = some (blk.fecStatus k b n) := by
  rw [Block.fecStatus, paritySlots_raw]
  rfl

theorem slot_raw (k : Fin (blk.dataShards + blk.paritySlots)) :
    (rawBlock blk).slots.getD k none = blk.slots k := by
  rw [List.getD_eq_getElem?_getD]
  exact congrArg (Option.getD · none) (getElem?_ofFn_lt blk.slots k.isLt)

theorem tryRecover_raw : (rawBlock blk).tryRecover rs =
    some ((blk.tryRecover rs).1, rawBlock (blk.tryRecover rs).2) := by
  have hcode : rs.reconstructData (rawBlock blk).dataShards blk.paritySlots
      (fun k => (rawBlock blk).slots.getD k none) =
        rs.reconstructData blk.dataShards blk.paritySlots blk.slots :=
    congrArg _ (funext (slot_raw blk))
  have hcount : ((rawBlock blk).slots.filter Option.isSome).length =
      (FecRs.present blk.slots).card := length_filter_ofFn blk.slots
  unfold Block.tryRecover BlockAsm.tryRecover
  rw [dataComplete_raw, paritySlots_raw]
  simp only [Option.bind_eq_bind, Option.bind_some, hcount]
  by_cases hcomplete : blk.dataComplete = true
  · rw [if_pos hcomplete, if_pos hcomplete]
  rw [if_neg hcomplete, if_neg hcomplete]
  by_cases hparity : blk.paritySlots = 0
  · rw [if_pos hparity, if_pos hparity]
  rw [if_neg hparity, if_neg hparity]
  by_cases hshort : (FecRs.present blk.slots).card < blk.dataShards
  · rw [if_pos hshort]
    exact if_pos hshort
  rw [if_neg hshort]
  refine (if_neg hshort).trans ?_
  by_cases hnew : rs.new blk.dataShards blk.paritySlots = true
  · rw [if_pos hnew]
    refine (if_pos hnew).trans ?_
    rw [hcode]
    cases hout : rs.reconstructData blk.dataShards blk.paritySlots blk.slots with
    | none => rfl
    | some slots =>
      have hdone := dataComplete_raw { blk with slots := slots }
      change (rawBlock { blk with slots := slots }).dataComplete.bind _ = _
      rw [hdone]
      rfl
  · rw [if_neg hnew]
    exact if_neg hnew

theorem record_raw (i : Fin (blk.dataShards + blk.paritySlots)) (seq : UInt16) (payload : Bytes)
    (hdata : blk.receivedData.toNat ≤ maxShards) (hparity : blk.receivedParity.toNat ≤ maxShards) :
    (rawBlock blk).record i seq payload = some (rawBlock (blk.record i seq payload)) := by
  have hreceived := setAt_ofFn blk.received i true
  have hslots := setAt_ofFn blk.slots i (some payload)
  unfold maxShards at hdata hparity
  unfold Block.record
  change (setAt (List.ofFn blk.received) i true).bind _ = _
  rw [hreceived, Option.bind_some]
  simp only [Option.bind_eq_bind]
  by_cases hi : i.val < blk.dataShards
  · have hadd : checkedAdd (rawBlock blk).receivedData 1 = some (blk.receivedData + 1) :=
      checkedAdd_eq (show blk.receivedData.toNat + 1 < 2 ^ 16 by omega)
    refine (if_pos hi).trans ?_
    rw [hadd, Option.map_some, Option.bind_some]
    refine (congrArg (Option.bind · _) hslots).trans ?_
    simp only [Option.bind_some, BlockAsm.record, if_pos hi]
    rfl
  · have hadd : checkedAdd (rawBlock blk).receivedParity 1 = some (blk.receivedParity + 1) :=
      checkedAdd_eq (show blk.receivedParity.toNat + 1 < 2 ^ 16 by omega)
    refine (if_neg hi).trans ?_
    rw [hadd, Option.map_some, Option.bind_some]
    refine (congrArg (Option.bind · _) hslots).trans ?_
    simp only [Option.bind_some, BlockAsm.record, if_neg hi]
    rfl

end Blocks

section Counts

/-- A block whose counters count its flags and whose slots hold payloads of one length. -/
structure BlockOk (len : ℕ) (blk : BlockAsm) : Prop where
  parity_eq : blk.paritySlots = parityShardCount blk.dataShards blk.fecPercentage
  filled : ∀ i s, blk.slots i = some s → s.length = len
  data : blk.receivedData.toNat = ((List.ofFn blk.received).take blk.dataShards).count true
  parity : blk.receivedParity.toNat = ((List.ofFn blk.received).drop blk.dataShards).count true

variable {len : ℕ} {blk : BlockAsm}

theorem blockOk_new (len d pct : ℕ) (hpos : 0 < d) (hle : d ≤ maxShards) :
    BlockOk len (BlockAsm.new d pct hpos hle) where
  parity_eq := rfl
  filled := nofun
  data := by
    change 0 = ((List.ofFn fun _ : Fin _ => false).take d).count true
    rw [List.ofFn_const, List.take_replicate, List.count_replicate]
    rfl
  parity := by
    change 0 = ((List.ofFn fun _ : Fin _ => false).drop d).count true
    rw [List.ofFn_const, List.drop_replicate, List.count_replicate]
    rfl

theorem BlockOk.data_le (h : BlockOk len blk) : blk.receivedData.toNat ≤ maxShards := by
  rw [h.data]
  refine List.count_le_length.trans ((List.length_take_le' _ _).trans ?_)
  rw [List.length_ofFn]
  exact blk.total_le

theorem BlockOk.parity_le (h : BlockOk len blk) : blk.receivedParity.toNat ≤ maxShards := by
  rw [h.parity]
  refine List.count_le_length.trans ?_
  rw [List.length_drop, List.length_ofFn]
  exact (Nat.sub_le _ _).trans blk.total_le

/-- A new flag below `d` is one more flag there. -/
theorem count_take_set {l : List Bool} {i : ℕ} (hi : i < l.length) (hnew : l[i] = false) (d : ℕ) :
    ((l.set i true).take d).count true = (l.take d).count true + if i < d then 1 else 0 := by
  rw [List.take_set]
  by_cases hd : i < d
  · have hlen : i < (l.take d).length := by
      rw [List.length_take]
      omega
    rw [if_pos hd, List.count_set hlen, List.getElem_take, hnew]
    rfl
  · rw [if_neg hd, List.set_eq_of_length_le (by rw [List.length_take]; omega)]
    rfl

theorem count_drop_set {l : List Bool} {i : ℕ} (hi : i < l.length) (hnew : l[i] = false) (d : ℕ) :
    ((l.set i true).drop d).count true = (l.drop d).count true + if i < d then 0 else 1 := by
  rw [List.drop_set]
  by_cases hd : i < d
  · rw [if_pos hd, if_pos hd]
    rfl
  · have hlen : i - d < (l.drop d).length := by
      rw [List.length_drop]
      omega
    have hget : (l.drop d)[i - d] = false := by
      rw [List.getElem_drop, ← hnew]
      congr 1
      omega
    rw [if_neg hd, if_neg hd, List.count_set hlen, hget]
    rfl

theorem ofFn_update {α : Type*} {n : ℕ} (f : Fin n → α) (i : Fin n) (v : α) :
    List.ofFn (Function.update f i v) = (List.ofFn f).set i v := by
  have hset := setAt_ofFn f i v
  rw [setAt, if_pos (by rw [List.length_ofFn]; exact i.isLt), Option.some.injEq] at hset
  exact hset.symm

theorem BlockOk.record (h : BlockOk len blk) (i : Fin (blk.dataShards + blk.paritySlots))
    (hnew : blk.received i = false) (seq : UInt16) {payload : Bytes}
    (hpayload : payload.length = len) : BlockOk len (blk.record i seq payload) := by
  have hlen : i.val < (List.ofFn blk.received).length := by
    rw [List.length_ofFn]
    exact i.isLt
  have hflag : (List.ofFn blk.received)[i.val] = false := by
    rw [List.getElem_ofFn]
    exact hnew
  have hfilled : ∀ j s, Function.update blk.slots i (some payload) j = some s → s.length = len := by
    intro j s hs
    by_cases hj : j = i
    · rw [hj, Function.update_self, Option.some.injEq] at hs
      rw [← hs, hpayload]
    · rw [Function.update_of_ne hj] at hs
      exact h.filled j s hs
  have hdata := h.data_le
  have hparity := h.parity_le
  unfold maxShards at hdata hparity
  refine ⟨h.parity_eq, hfilled, ?_, ?_⟩
  · change (if i.val < blk.dataShards then _ else _ : UInt16).toNat =
      ((List.ofFn (Function.update blk.received i true)).take blk.dataShards).count true
    rw [ofFn_update, count_take_set hlen hflag, ← h.data]
    split
    · rw [UInt16.toNat_add]
      change (_ + 1) % 2 ^ 16 = _
      omega
    · rfl
  · change (if i.val < blk.dataShards then _ else _ : UInt16).toNat =
      ((List.ofFn (Function.update blk.received i true)).drop blk.dataShards).count true
    rw [ofFn_update, count_drop_set hlen hflag, ← h.parity]
    split
    · rfl
    · rw [UInt16.toNat_add]
      change (_ + 1) % 2 ^ 16 = _
      omega

/-- Recovery fills slots with payloads of the block's length, and flags nothing. -/
theorem BlockOk.tryRecover {rs : FecRs} (hrs : rs.KeepsLengths) (h : BlockOk len blk) :
    BlockOk len (blk.tryRecover rs).2 := by
  unfold BlockAsm.tryRecover
  split
  · exact h
  split
  · exact h
  split
  · exact h
  rename_i hshort
  split
  · split
    · rename_i slots hslots
      exact ⟨h.parity_eq, hrs _ _ len blk.slots slots blk.data_pos (not_lt.mp hshort) h.filled hslots,
        h.data, h.parity⟩
    · exact h
  · exact h

end Counts

end KmControl.CheckedBlocks
