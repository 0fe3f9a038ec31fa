import KmControl.Answering
import KmControl.EncodeLoops

/-!
Whether a request for a key frame reaches the encoder. A pass of the zero-copy
loop that has taken the flag may still be skipped, and the memory encoder clears
its own flag before the codec takes the frame; the request is gone then.
-/
namespace KmControl.ForcedIdr

open Answering Encoders EncodeLoops

namespace ZeroCopy

open EncodeLoops.ZeroCopy

def running (s : Loop) : Bool := decide (s.phase ≠ Phase.stopped)

/-- A pass that has taken the flag is not skipped, and its frame is encoded. -/
def Reaches (s : Loop) (ev : Event) : Prop :=
  match s.phase, ev with
  | .acquire true, .acquired result => result = some true
  | .convert true, .converted ok => ok = true
  | .stage true, .staged ok => ok = true
  | .submit true, .submitted sendFrame receivePacket _ => (sendFrame && receivePacket) = true
  | _, _ => True

/-- A request is still open: it is in the flag, or this pass has taken it. If it was
made during a pass, the frame of that pass comes first. -/
def Owes (s : Loop) (b : ℕ) : Prop :=
  match s.phase with
  | .stopped => True
  | .head => s.idrReq = true
  | .acquire idr | .convert idr | .stage idr | .submit idr =>
    idr = true ∨ (s.idrReq = true ∧ 0 < b)

theorem submit_cases (s : Loop) (idr sendFrame receivePacket channelClosed : Bool) :
    let s' := s.submit idr sendFrame receivePacket channelClosed
    s'.idrReq = s.idrReq ∧ (s'.phase = Phase.stopped ∨ s'.phase = Phase.head) ∧
      s'.submitted = s.submitted ++
        if (sendFrame && receivePacket) = true then [idr] else [] := by
  unfold Loop.submit ZeroCopyEncoder.submit
  cases sendFrame && receivePacket with
  | true => cases channelClosed <;> simp
  | false => simp

theorem begin_pays {s : Loop} (h : Head) (b : ℕ) (hflag : s.idrReq = true)
    (hhead : s.phase = Phase.head) : Pays Loop.submitted Owes s (s.begin h) b := by
  unfold Loop.begin
  split
  · exact Or.inl ⟨rfl, trivial⟩
  split
  · exact Or.inl ⟨rfl, by simpa [Owes, hhead] using hflag⟩
  · exact Or.inl ⟨rfl, Or.inl hflag⟩

theorem submit_pays {s : Loop} {idr : Bool} (sendFrame receivePacket channelClosed : Bool) {b : ℕ}
    (howes : idr = true ∨ (s.idrReq = true ∧ 0 < b))
    (hreaches : idr = true → (sendFrame && receivePacket) = true) :
    Pays Loop.submitted Owes s (s.submit idr sendFrame receivePacket channelClosed) b := by
  obtain ⟨hflag, hphase, hout⟩ := submit_cases s idr sendFrame receivePacket channelClosed
  generalize s.submit idr sendFrame receivePacket channelClosed = s' at hflag hphase hout
  have hopen : ∀ b', s.idrReq = true → Owes s' b' := by
    intro b' hreq
    rcases hphase with hphase | hphase
    · simp [Owes, hphase]
    · simp [Owes, hphase, hflag, hreq]
  cases idr with
  | true =>
    rw [if_pos (hreaches rfl)] at hout
    exact Or.inr (Or.inl hout)
  | false =>
    obtain ⟨hreq, hleft⟩ := howes.resolve_left Bool.false_ne_true
    split at hout
    · exact Or.inr (Or.inr ⟨b - 1, (Nat.succ_pred_eq_of_pos hleft).symm, hout, hopen _ hreq⟩)
    · exact Or.inl ⟨hout.trans (List.append_nil _), hopen b hreq⟩

theorem step_pays (s : Loop) (ev : Event) (b : ℕ) (howes : Owes s b) (hreaches : Reaches s ev) :
    Pays Loop.submitted Owes s (step s ev) b := by
  -- A pass that is skipped had not taken the flag, so the flag is still set.
  have hskip : ∀ idr, (idr = true ∨ (s.idrReq = true ∧ 0 < b)) → idr ≠ true →
      ∀ encoder, Pays Loop.submitted Owes s { s with encoder := encoder, phase := Phase.head } b :=
    fun idr hopen hfree encoder => Or.inl ⟨rfl, (hopen.resolve_left hfree).1⟩
  fun_cases step s ev with
  | case1 =>
    refine Or.inl ⟨rfl, ?_⟩
    unfold Owes at howes ⊢
    cases hphase : s.phase with
    | head => rfl
    | stopped => trivial
    | acquire idr | convert idr | stage idr | submit idr =>
      rw [hphase] at howes
      exact howes.imp_right fun hreq => ⟨rfl, hreq.2⟩
  | case2 h hphase => exact begin_pays h b (by simpa [Owes, hphase] using howes) hphase
  | case3 idr hphase => exact Or.inl ⟨rfl, by simpa [Owes, hphase] using howes⟩
  | case4 idr result hresult hphase =>
    refine hskip idr (by simpa [Owes, hphase] using howes) ?_ s.encoder
    rintro rfl
    exact hresult (by simpa [Reaches, hphase] using hreaches)
  | case5 idr hphase => exact Or.inl ⟨rfl, by simpa [Owes, hphase] using howes⟩
  | case6 idr hphase =>
    refine hskip idr (by simpa [Owes, hphase] using howes) ?_ s.encoder
    rintro rfl
    simp [Reaches, hphase] at hreaches
  | case7 idr hphase => exact Or.inl ⟨rfl, by simpa [Owes, hphase] using howes⟩
  | case8 idr hphase =>
    refine hskip idr (by simpa [Owes, hphase] using howes) ?_ s.encoder.stage
    rintro rfl
    simp [Reaches, hphase] at hreaches
  | case9 idr sendFrame receivePacket channelClosed hphase =>
    refine submit_pays sendFrame receivePacket channelClosed
      (by simpa [Owes, hphase] using howes) ?_
    rintro rfl
    simpa [Reaches, hphase] using hreaches
  | case10 => exact Or.inl ⟨rfl, howes⟩

theorem step_grows (s : Loop) (ev : Event) : s.submitted <+: (step s ev).submitted := by
  fun_cases step s ev with
  | case2 h =>
    unfold Loop.begin
    split_ifs <;> exact List.prefix_refl _
  | case9 idr sendFrame receivePacket channelClosed =>
    obtain ⟨-, -, hout⟩ := submit_cases s idr sendFrame receivePacket channelClosed
    exact hout ▸ List.prefix_append _ _
  | _ => exact List.prefix_refl _

theorem request_opens (s : Loop) :
    Owes (step s Event.requestIdr) 1 ∧ (step s Event.requestIdr).submitted = s.submitted := by
  have hstep : step s Event.requestIdr = { s with idrReq := true } := by
    unfold step
    cases s.phase <;> rfl
  rw [hstep]
  refine ⟨?_, rfl⟩
  unfold Owes
  cases s.phase <;> simp

theorem answered (encoder : ZeroCopyEncoder) (evs : List Event)
    (h : (machine encoder).Along Reaches evs) :
    AnsweredWithin (machine encoder) Loop.submitted 1 running Event.requestIdr evs :=
  answeredWithin_of_pays (fun s _ => request_opens s) step_pays step_grows evs h

end ZeroCopy

namespace Ram

open EncodeLoops.Ram

def running (s : Loop) : Bool := decide (s.phase ≠ Phase.stopped)

/-- The codec takes a frame that is to be a key frame. -/
def Reaches (s : Loop) (ev : Event) : Prop :=
  match s.phase, ev with
  | .encode, .encoded sendFrame _ =>
    s.encoder.forceIdr = true → s.encoder.expected ≤ s.size → sendFrame = true
  | _, _ => True

def Owes (s : Loop) (b : ℕ) : Prop :=
  match s.phase with
  | .stopped => True
  | .first | .head => s.idrReq = true ∨ s.encoder.forceIdr = true
  | .encode => s.encoder.forceIdr = true ∨ (s.idrReq = true ∧ 0 < b)

theorem forceIdr_setBitrate {e : QsvEncoder} (h : e.forceIdr = true) (bitrateBps : UInt32)
    (now : ℕ) (built : Bool) : (e.setBitrate bitrateBps now built).forceIdr = true := by
  unfold QsvEncoder.setBitrate
  split
  · rfl
  · exact h

/-- A picture that is too small leaves the encoder as it was. -/
theorem encode_cases (s : Loop) (sendFrame channelClosed : Bool) :
    let s' := s.encode sendFrame channelClosed
    s'.idrReq = s.idrReq ∧ (s'.phase = Phase.stopped ∨ s'.phase = Phase.head) ∧
      ((s'.encoder = s.encoder ∧ s'.submitted = s.submitted) ∨
        (s.encoder.expected ≤ s.size ∧ s'.submitted = s.submitted ++
          if sendFrame = true then [s.encoder.forceIdr] else [])) := by
  unfold Loop.encode QsvEncoder.encode
  by_cases hsize : s.size < s.encoder.expected
  · simp [hsize]
  · have hlarge := Nat.le_of_not_lt hsize
    cases sendFrame with
    | true => cases channelClosed <;> simp [hsize, hlarge]
    | false => simp [hsize, hlarge]

theorem load_pays {s : Loop} (stop : Bool) (picture : Option ℕ) (b : ℕ)
    (hopen : s.idrReq = true ∨ s.encoder.forceIdr = true) (hfirst : s.phase = Phase.first) :
    Pays Loop.submitted Owes s (s.load stop picture) b := by
  unfold Loop.load
  split
  · exact Or.inl ⟨rfl, trivial⟩
  cases picture with
  | some size => exact Or.inl ⟨rfl, hopen⟩
  | none => exact Or.inl ⟨rfl, by simpa [Owes, hfirst] using hopen⟩

theorem begin_pays {s : Loop} (h : Head) (picture : Option ℕ) (b : ℕ)
    (hopen : s.idrReq = true ∨ s.encoder.forceIdr = true) (hhead : s.phase = Phase.head) :
    Pays Loop.submitted Owes s (s.begin h picture) b := by
  unfold Loop.begin
  split
  · exact Or.inl ⟨rfl, trivial⟩
  split
  · exact Or.inl ⟨rfl, by simpa [Owes, hhead] using hopen⟩
  refine Or.inl ⟨rfl, Or.inl ?_⟩
  rcases hopen with hreq | hforce
  · rw [hreq]
    rfl
  · have hkept : (if s.frames % pollEvery = 0 ∧ h.target ≠ 0 then
        s.encoder.setBitrate h.target h.now h.built else s.encoder).forceIdr = true := by
      split
      · exact forceIdr_setBitrate hforce h.target h.now h.built
      · exact hforce
    cases s.idrReq with
    | true => rfl
    | false => exact hkept

theorem encode_pays {s : Loop} (sendFrame channelClosed : Bool) {b : ℕ}
    (howes : s.encoder.forceIdr = true ∨ (s.idrReq = true ∧ 0 < b))
    (hreaches : s.encoder.forceIdr = true → s.encoder.expected ≤ s.size → sendFrame = true) :
    Pays Loop.submitted Owes s (s.encode sendFrame channelClosed) b := by
  obtain ⟨hflag, hphase, hcase⟩ := encode_cases s sendFrame channelClosed
  generalize s.encode sendFrame channelClosed = s' at hflag hphase hcase
  have hopen : ∀ b', s.idrReq = true ∨ s'.encoder.forceIdr = true → Owes s' b' := by
    intro b' hreq
    rcases hphase with hphase | hphase
    · simp [Owes, hphase]
    · simpa [Owes, hphase, hflag] using hreq
  rcases hcase with ⟨hencoder, hout⟩ | ⟨hsize, hout⟩
  · refine Or.inl ⟨hout, hopen b ?_⟩
    rw [hencoder]
    exact howes.symm.imp_left And.left
  · cases hforce : s.encoder.forceIdr with
    | true =>
      rw [if_pos (hreaches hforce hsize), hforce] at hout
      exact Or.inr (Or.inl hout)
    | false =>
      obtain ⟨hreq, hleft⟩ := howes.resolve_left (by rw [hforce]; exact Bool.false_ne_true)
      rw [hforce] at hout
      split at hout
      · exact Or.inr (Or.inr ⟨b - 1, (Nat.succ_pred_eq_of_pos hleft).symm, hout,
          hopen _ (Or.inl hreq)⟩)
      · exact Or.inl ⟨hout.trans (List.append_nil _), hopen b (Or.inl hreq)⟩

theorem step_pays (s : Loop) (ev : Event) (b : ℕ) (howes : Owes s b) (hreaches : Reaches s ev) :
    Pays Loop.submitted Owes s (step s ev) b := by
  fun_cases step s ev with
  | case1 =>
    refine Or.inl ⟨rfl, ?_⟩
    unfold Owes at howes ⊢
    cases hphase : s.phase with
    | stopped => trivial
    | first | head => exact Or.inl rfl
    | encode =>
      rw [hphase] at howes
      exact howes.imp_right fun hreq => ⟨rfl, hreq.2⟩
  | case2 stop picture hphase =>
    exact load_pays stop picture b (by simpa [Owes, hphase] using howes) hphase
  | case3 h picture hphase =>
    exact begin_pays h picture b (by simpa [Owes, hphase] using howes) hphase
  | case4 sendFrame channelClosed hphase =>
    refine encode_pays sendFrame channelClosed (by simpa [Owes, hphase] using howes) ?_
    simpa only [Reaches, hphase] using hreaches
  | case5 => exact Or.inl ⟨rfl, howes⟩

theorem step_grows (s : Loop) (ev : Event) : s.submitted <+: (step s ev).submitted := by
  fun_cases step s ev with
  | case2 stop picture =>
    unfold Loop.load
    split
    · exact List.prefix_refl _
    · cases picture <;> exact List.prefix_refl _
  | case3 h picture =>
    unfold Loop.begin
    split
    · exact List.prefix_refl _
    split <;> exact List.prefix_refl _
  | case4 sendFrame channelClosed =>
    obtain ⟨-, -, ⟨-, hout⟩ | ⟨-, hout⟩⟩ := encode_cases s sendFrame channelClosed
    · exact hout ▸ List.prefix_refl _
    · exact hout ▸ List.prefix_append _ _
  | _ => exact List.prefix_refl _

theorem request_opens (s : Loop) :
    Owes (step s Event.requestIdr) 1 ∧ (step s Event.requestIdr).submitted = s.submitted := by
  have hstep : step s Event.requestIdr = { s with idrReq := true } := by
    unfold step
    cases s.phase <;> rfl
  rw [hstep]
  refine ⟨?_, rfl⟩
  unfold Owes
  cases s.phase <;> simp

theorem answered (encoder : QsvEncoder) (evs : List Event)
    (h : (machine encoder).Along Reaches evs) :
    AnsweredWithin (machine encoder) Loop.submitted 1 running Event.requestIdr evs :=
  answeredWithin_of_pays (fun s _ => request_opens s) step_pays step_grows evs h

end Ram

/-- After a request at most one further frame is submitted before a forced IDR, in
every run in which a pass that has taken a request is not skipped. -/
theorem request_answered (encoder : ZeroCopyEncoder) (evs : List EncodeLoops.ZeroCopy.Event)
    (qsv : QsvEncoder) (ramEvs : List EncodeLoops.Ram.Event) :
    ((EncodeLoops.ZeroCopy.machine encoder).Along ZeroCopy.Reaches evs →
      AnsweredWithin (EncodeLoops.ZeroCopy.machine encoder) EncodeLoops.ZeroCopy.Loop.submitted 1
        ZeroCopy.running EncodeLoops.ZeroCopy.Event.requestIdr evs) ∧
    ((EncodeLoops.Ram.machine qsv).Along Ram.Reaches ramEvs →
      AnsweredWithin (EncodeLoops.Ram.machine qsv) EncodeLoops.Ram.Loop.submitted 1
        Ram.running EncodeLoops.Ram.Event.requestIdr ramEvs) :=
  ⟨ZeroCopy.answered encoder evs, Ram.answered qsv ramEvs⟩

def looking : Head := ⟨false, true, 0, 0, true⟩

/-- A pass that gets a picture and has it encoded. -/
def fullPass : List EncodeLoops.ZeroCopy.Event :=
  [.start looking, .acquired (some true), .converted true, .staged true, .submitted true true false]

theorem request_answered_by_first_pass :
    AnsweredWithin (EncodeLoops.ZeroCopy.machine (ZeroCopyEncoder.new 10000000 0))
      EncodeLoops.ZeroCopy.Loop.submitted 1 ZeroCopy.running
        EncodeLoops.ZeroCopy.Event.requestIdr
          (EncodeLoops.ZeroCopy.Event.requestIdr :: fullPass) ∧
      AnsweredWithin (EncodeLoops.Ram.machine (QsvEncoder.newCodec 2 2 10000000 0))
        EncodeLoops.Ram.Loop.submitted 1 Ram.running EncodeLoops.Ram.Event.requestIdr
          [.load false (some 6), .requestIdr, .start looking (some 6), .encoded true false] := by
  have hboth := request_answered (ZeroCopyEncoder.new 10000000 0)
    (EncodeLoops.ZeroCopy.Event.requestIdr :: fullPass) (QsvEncoder.newCodec 2 2 10000000 0)
    [.load false (some 6), .requestIdr, .start looking (some 6), .encoded true false]
  constructor
  · refine hboth.1 (Machine.along_of_alongFrom ?_)
    exact ⟨trivial, trivial, rfl, rfl, rfl, rfl, trivial⟩
  · refine hboth.2 (Machine.along_of_alongFrom ?_)
    exact ⟨trivial, trivial, trivial, fun _ _ => rfl, trivial⟩

/-- A request that is taken by a pass which then times out, and one whose frame the
codec refuses. -/
theorem request_swallowed :
    ¬ AnsweredWithin (EncodeLoops.ZeroCopy.machine (ZeroCopyEncoder.new 10000000 0))
      EncodeLoops.ZeroCopy.Loop.submitted 1 ZeroCopy.running EncodeLoops.ZeroCopy.Event.requestIdr
        ([.requestIdr, .start looking, .acquired (some false)] ++ fullPass ++ fullPass) ∧
    ¬ AnsweredWithin (EncodeLoops.Ram.machine (QsvEncoder.newCodec 2 2 10000000 0))
      EncodeLoops.Ram.Loop.submitted 1 Ram.running EncodeLoops.Ram.Event.requestIdr
        [.load false (some 6), .requestIdr, .start looking (some 6), .encoded false false,
          .start looking none, .encoded true false, .start looking none, .encoded true false] := by
  constructor
  · intro h
    exact absurd (h [] _ rfl rfl) (by decide)
  · intro h
    exact absurd (h [.load false (some 6)] _ rfl rfl) (by decide)

end KmControl.ForcedIdr
