import KmControl.PacketizerShards
import KmControl.VideoTaskSteps

/-!
The frames that the video task skips when several are waiting. Every delta
frame depends on the encoder output just before it, and the encoder makes key
frames on request only; so a skipped frame has to be made up for by a request.
-/
namespace KmControl.Backlog

open GsProto Packetizer PacketizerShards VideoTask VideoTaskSteps

variable {rs : FecRs} {Addr : Type} {packetSize : ℕ} {s : Task rs Addr} {first : Queued}
  {rest : List Queued}

/-- The places in encoder order of all frames sent and waiting. -/
def orders (s : Task rs Addr) : List ℕ := s.sent.map Sent.order ++ s.queue.map Queued.order

/-- Frames are sent and wait in the order in which the encoder made them. -/
structure Sequenced (s : Task rs Addr) : Prop where
  ascending : (orders s).Pairwise (· < ·)
  bound : ∀ n ∈ orders s, n < s.produced

theorem getLast?_waiting (first : Queued) (rest : List Queued) :
    (first :: rest).getLast? = some (rest.getLastD first) := by
  rw [List.getLast?_cons, List.getLastD_eq_getLast?]

theorem newest_mem (first : Queued) (rest : List Queued) : rest.getLastD first ∈ first :: rest :=
  List.mem_of_getLast? (getLast?_waiting first rest)

theorem skipped_append_newest (first : Queued) (rest : List Queued) :
    (first :: rest).dropLast ++ [rest.getLastD first] = first :: rest :=
  List.dropLast_append_getLast? _ (getLast?_waiting first rest)

theorem Sequenced.sent_lt (h : Sequenced s) {x : Sent rs Addr} (hx : x ∈ s.sent) {q : Queued}
    (hq : q ∈ s.queue) : x.order < q.order :=
  (List.pairwise_append.mp h.ascending).2.2 _ (List.mem_map_of_mem hx) _ (List.mem_map_of_mem hq)

theorem Sequenced.skipped_lt (h : Sequenced s) (hqueue : s.queue = first :: rest) {q : Queued}
    (hq : q ∈ (first :: rest).dropLast) : q.order < (rest.getLastD first).order := by
  have hwaiting := (List.pairwise_append.mp h.ascending).2.1
  rw [hqueue, ← skipped_append_newest first rest, List.map_append] at hwaiting
  exact (List.pairwise_append.mp hwaiting).2.2 _ (List.mem_map_of_mem hq) _ List.mem_cons_self

theorem Sequenced.first_lt (h : Sequenced s) (hqueue : s.queue = first :: rest) {q : Queued}
    (hq : q ∈ rest) : first.order < q.order := by
  have hwaiting := (List.pairwise_append.mp h.ascending).2.1
  rw [hqueue, List.map_cons] at hwaiting
  exact List.rel_of_pairwise_cons hwaiting (List.mem_map_of_mem hq)

/-- The frame sent with the place just before a waiting frame is the one sent last. -/
theorem Sequenced.sent_last (h : Sequenced s) {y : Sent rs Addr} (hy : y ∈ s.sent) {q : Queued}
    (hq : q ∈ s.queue) (hnext : y.order + 1 = q.order) : y ∈ s.sent.getLast? := by
  obtain ⟨earlier, last, hsent⟩ : ∃ earlier last, s.sent = earlier ++ [last] :=
    ⟨_, _, (List.dropLast_append_getLast (List.ne_nil_of_mem hy)).symm⟩
  have hlast : last.order < q.order := by
    refine h.sent_lt ?_ hq
    rw [hsent]
    exact List.mem_append_right _ List.mem_cons_self
  rw [hsent] at hy ⊢
  rw [List.getLast?_concat]
  rcases List.mem_append.mp hy with hearlier | hy
  · have hascending := (List.pairwise_append.mp h.ascending).1
    rw [hsent, List.map_append] at hascending
    have hlt := (List.pairwise_append.mp hascending).2.2 _ (List.mem_map_of_mem hearlier) _
      List.mem_cons_self
    omega
  · exact congrArg some (List.mem_singleton.mp hy).symm

/-- If the output before the newest waiting frame was sent, nothing is skipped. -/
theorem Sequenced.alone (h : Sequenced s) (hqueue : s.queue = first :: rest) {y : Sent rs Addr}
    (hy : y ∈ s.sent) (hnext : y.order + 1 = (rest.getLastD first).order) : rest = [] := by
  have hfirst := h.sent_lt hy (hqueue ▸ List.mem_cons_self)
  cases rest with
  | nil => rfl
  | cons q more =>
    have hlt := h.first_lt hqueue (q := (q :: more).getLastD first)
      (List.getLastD_cons (b := q) (l := more) ▸ newest_mem q more)
    omega

variable [DecidableEq Addr]

theorem Sequenced.step (h : Sequenced s) (ev : Event Addr) :
    Sequenced (VideoTask.step packetSize s ev) := by
  have hsub : ∀ s' : Task rs Addr, (orders s').Sublist (orders s) → s'.produced = s.produced →
      Sequenced s' := by
    intro s' hsublist hproduced
    exact ⟨h.ascending.sublist hsublist, fun n hn => hproduced ▸ h.bound n (hsublist.subset hn)⟩
  rcases effect_step packetSize s ev with ⟨-, heffect⟩ | ⟨-, hstopped⟩
  · generalize VideoTask.step packetSize s ev = s' at heffect ⊢
    cases heffect with
    | other _ _ hqueue hproduced hsent _ _ =>
      refine hsub s' ?_ hproduced
      rw [orders, hqueue, hsent]
      exact List.Sublist.refl _
    | encodes frame =>
      have horders : orders { s with
          queue := s.queue ++ [⟨s.produced, frame⟩], produced := s.produced + 1 } =
            orders s ++ [s.produced] := by
        unfold orders
        rw [List.map_append, List.append_assoc]
        rfl
      refine ⟨?_, ?_⟩
      · rw [horders]
        refine List.pairwise_append.mpr ⟨h.ascending, List.pairwise_singleton _ _, ?_⟩
        intro n hn m hm
        rw [List.mem_singleton.mp hm]
        exact h.bound n hn
      · rw [horders]
        intro n hn
        rcases List.mem_append.mp hn with hold | hnew
        · exact (h.bound n hold).trans (Nat.lt_succ_self _)
        · rw [List.mem_singleton.mp hnew]
          exact Nat.lt_succ_self _
    | drops pct now first rest hqueue _ =>
      refine hsub _ ?_ rfl
      unfold orders
      rw [hqueue]
      exact (List.Sublist.refl _).append (List.sublist_cons_self _ _)
    | sends pct now first rest dst p counters hqueue _ _ =>
      refine hsub _ ?_ (produced_takeReset s)
      unfold orders
      rw [hqueue, List.map_append, List.append_assoc]
      refine (List.Sublist.refl _).append ?_
      exact List.singleton_sublist.mpr (List.mem_map_of_mem (newest_mem first rest))
  · rw [hstopped]
    exact h

theorem run_sequenced (rs : FecRs) (packetSize : ℕ) (evs : List (Event Addr)) :
    Sequenced ((machine rs Addr packetSize).run evs) :=
  (machine rs Addr packetSize).run_invariant
    ⟨List.Pairwise.nil, fun _ hn => absurd hn List.not_mem_nil⟩ (fun _ ev hs => hs.step ev) evs

/-- The encoder output with this place has left the channel. -/
def Left (s : Task rs Addr) (n : ℕ) : Prop := n < s.produced ∧ ∀ q ∈ s.queue, q.order ≠ n

/-- A key frame was on request at some time of the run after this output had left the channel. -/
def Requested (rs : FecRs) (packetSize : ℕ) (evs : List (Event Addr)) (n : ℕ) : Prop :=
  ∃ pre, pre <+: evs ∧ ((machine rs Addr packetSize).run pre).idrReq = true ∧
    Left ((machine rs Addr packetSize).run pre) n

/-- The last event of a run leaves the stream decodable: a delta frame goes to a
client that was sent the output before it, or a key frame has been requested for
the skipped output; and no key frame is discarded without a request. -/
structure KeepsDecodable (rs : FecRs) (packetSize : ℕ) (evs : List (Event Addr))
    (ev : Event Addr) : Prop where
  deltas : ∀ x, ((machine rs Addr packetSize).run (evs ++ [ev])).sent =
      ((machine rs Addr packetSize).run evs).sent ++ [x] → x.frame.isKeyFrame = false →
    ∀ n, n + 1 = x.order →
      (∃ y ∈ ((machine rs Addr packetSize).run evs).sent, y.dst = x.dst ∧ y.order = n) ∨
        Requested rs packetSize (evs ++ [ev]) n
  keys : ∀ q ∈ ((machine rs Addr packetSize).run evs).queue,
    q ∉ ((machine rs Addr packetSize).run (evs ++ [ev])).queue → q.frame.isKeyFrame = true →
      (∃ x ∈ ((machine rs Addr packetSize).run (evs ++ [ev])).sent, x.order = q.order) ∨
        ((machine rs Addr packetSize).run (evs ++ [ev])).idrReq = true

/-- The newest of the waiting frames may be sent to a client: it is a key frame, or
it waits alone and is the output right after the frame sent last, which went to the
same client, or the output before it was made up for by a request. -/
def Follows (rs : FecRs) (packetSize : ℕ) (evs : List (Event Addr)) (first : Queued)
    (rest : List Queued) (dst : Addr) : Prop :=
  (rest.getLastD first).frame.isKeyFrame = true ∨ ∀ n, n + 1 = (rest.getLastD first).order →
    (rest = [] ∧ ∃ y ∈ ((machine rs Addr packetSize).run evs).sent.getLast?,
      y.dst = dst ∧ y.order = n) ∨ Requested rs packetSize evs n

/-- No gap arises when frames are taken from the channel, or a key frame is on
request at that moment: no key frame is among those that are skipped, and the
newest one may be sent. -/
def NoGap (rs : FecRs) (packetSize : ℕ) (evs : List (Event Addr)) (ev : Event Addr) : Prop :=
  let s := (machine rs Addr packetSize).run evs
  ∀ pct now first rest, ev = Event.takeFrame pct now → s.queue = first :: rest →
    s.running = true → s.idrReq = true ∨
      match s.clientAddr with
      | none => first.frame.isKeyFrame = false
      | some dst => nvVideoPacketSize < packetSize →
          (∀ q ∈ (first :: rest).dropLast, q.frame.isKeyFrame = false) ∧
            Follows rs packetSize evs first rest dst

section OneEvent

variable {evs : List (Event Addr)} {ev : Event Addr}

theorem requested_concat {n : ℕ} : Requested rs packetSize (evs ++ [ev]) n ↔
    Requested rs packetSize evs n ∨
      ((machine rs Addr packetSize).run (evs ++ [ev])).idrReq = true ∧
        Left ((machine rs Addr packetSize).run (evs ++ [ev])) n := by
  constructor
  · rintro ⟨pre, hpre, hreq⟩
    rcases List.prefix_concat_iff.mp hpre with rfl | hshort
    · exact Or.inr hreq
    · exact Or.inl ⟨pre, hshort, hreq⟩
  · rintro (⟨pre, hpre, hreq⟩ | hreq)
    · exact ⟨pre, hpre.trans (List.prefix_append _ _), hreq⟩
    · exact ⟨_, List.prefix_refl _, hreq⟩

theorem KeepsDecodable.of_same (hsent : ((machine rs Addr packetSize).run (evs ++ [ev])).sent =
      ((machine rs Addr packetSize).run evs).sent)
    (hqueue : ((machine rs Addr packetSize).run evs).queue ⊆
      ((machine rs Addr packetSize).run (evs ++ [ev])).queue) :
    KeepsDecodable rs packetSize evs ev := by
  refine ⟨fun x hx => ?_, fun q hq hgone => absurd (hqueue hq) hgone⟩
  exact absurd (List.self_eq_append_right.mp (hsent.symm.trans hx)) (List.cons_ne_nil x [])

/-- Taking the frame `first` while no client is registered. -/
theorem keepsDecodable_iff_of_drops {pct now : ℕ}
    (hqueue : ((machine rs Addr packetSize).run evs).queue = first :: rest)
    (hrun : (machine rs Addr packetSize).run (evs ++ [Event.takeFrame pct now]) =
      { (machine rs Addr packetSize).run evs with queue := rest, waitingSince := now }) :
    KeepsDecodable rs packetSize evs (Event.takeFrame pct now) ↔
      ((machine rs Addr packetSize).run evs).idrReq = true ∨ first.frame.isKeyFrame = false := by
  have hsequenced := run_sequenced rs packetSize evs
  generalize hs : (machine rs Addr packetSize).run evs = s at hqueue hrun hsequenced
  constructor
  · intro hkeeps
    cases hkey : first.frame.isKeyFrame with
    | false => exact Or.inr rfl
    | true =>
      have hgone : first ∉ rest := fun hmem => (hsequenced.first_lt hqueue hmem).false
      have hkept := hkeeps.keys first (by rw [hs, hqueue]; exact List.mem_cons_self)
        (by rw [hrun]; exact hgone) hkey
      rw [hrun] at hkept
      rcases hkept with ⟨x, hx, horder⟩ | hreq
      · have hlt := hsequenced.sent_lt hx (hqueue ▸ List.mem_cons_self)
        omega
      · exact Or.inl hreq
  · intro hcovered
    refine ⟨fun x hx => ?_, fun q hq hgone hkey => ?_⟩
    · rw [hrun, hs] at hx
      exact absurd (List.self_eq_append_right.mp hx) (List.cons_ne_nil x [])
    · rw [hrun] at hgone ⊢
      rw [hs, hqueue] at hq
      rcases List.mem_cons.mp hq with rfl | hrest
      · rcases hcovered with hreq | hdelta
        · exact Or.inr hreq
        · rw [hdelta] at hkey
          cases hkey
      · exact absurd hrest hgone

/-- Taking the waiting frames while a client is registered: only the newest one is sent. -/
theorem keepsDecodable_iff_of_sends (pct now : ℕ) {x : Sent rs Addr}
    (hqueue : ((machine rs Addr packetSize).run evs).queue = first :: rest)
    (hsent : ((machine rs Addr packetSize).run (evs ++ [Event.takeFrame pct now])).sent =
      ((machine rs Addr packetSize).run evs).sent ++ [x])
    (hempty : ((machine rs Addr packetSize).run (evs ++ [Event.takeFrame pct now])).queue = [])
    (hproduced : ((machine rs Addr packetSize).run (evs ++ [Event.takeFrame pct now])).produced =
      ((machine rs Addr packetSize).run evs).produced)
    (hreq : ((machine rs Addr packetSize).run (evs ++ [Event.takeFrame pct now])).idrReq =
      ((machine rs Addr packetSize).run evs).idrReq)
    (horder : x.order = (rest.getLastD first).order)
    (hkind : x.frame.isKeyFrame = (rest.getLastD first).frame.isKeyFrame) :
    KeepsDecodable rs packetSize evs (Event.takeFrame pct now) ↔
      ((machine rs Addr packetSize).run evs).idrReq = true ∨
        (∀ q ∈ (first :: rest).dropLast, q.frame.isKeyFrame = false) ∧
          Follows rs packetSize evs first rest x.dst := by
  have hsequenced := run_sequenced rs packetSize evs
  have hleft : ∀ n, n + 1 = (rest.getLastD first).order →
      Left ((machine rs Addr packetSize).run (evs ++ [Event.takeFrame pct now])) n := by
    intro n hn
    refine ⟨?_, fun q hq => absurd (hempty ▸ hq) List.not_mem_nil⟩
    have hbound := hsequenced.bound _ (List.mem_append_right _ (List.mem_map_of_mem
      (hqueue ▸ newest_mem first rest)))
    omega
  constructor
  · intro hkeeps
    cases hpending : ((machine rs Addr packetSize).run evs).idrReq with
    | true => exact Or.inl rfl
    | false =>
      refine Or.inr ⟨fun q hq => ?_, ?_⟩
      · -- A skipped key frame is not among the frames sent: its place is before the newest one.
        by_contra hkey
        have hwaiting : q ∈ ((machine rs Addr packetSize).run evs).queue :=
          hqueue ▸ List.dropLast_subset _ hq
        rcases hkeeps.keys q hwaiting (by rw [hempty]; exact List.not_mem_nil)
          (Bool.eq_true_of_not_eq_false hkey) with ⟨y, hy, hplace⟩ | hraised
        · rw [hsent] at hy
          rcases List.mem_append.mp hy with hold | hnew
          · have hlt := hsequenced.sent_lt hold hwaiting
            omega
          · rw [List.mem_singleton.mp hnew] at hplace
            have hlt := hsequenced.skipped_lt hqueue hq
            omega
        · rw [hreq, hpending] at hraised
          cases hraised
      · cases hkey : (rest.getLastD first).frame.isKeyFrame with
        | true => exact Or.inl hkey
        | false =>
          refine Or.inr fun n hn => ?_
          rcases hkeeps.deltas x hsent (hkind.trans hkey) n (hn.trans horder.symm) with
            ⟨y, hy, hdst, hplace⟩ | hraised
          · left
            have hnext : y.order + 1 = (rest.getLastD first).order := hplace ▸ hn
            exact ⟨hsequenced.alone hqueue hy hnext, y,
              hsequenced.sent_last hy (hqueue ▸ newest_mem first rest) hnext, hdst, hplace⟩
          · right
            rcases requested_concat.mp hraised with hbefore | ⟨hnow, -⟩
            · exact hbefore
            · rw [hreq, hpending] at hnow
              cases hnow
  · intro hcovered
    refine ⟨fun x' hx' hdelta n hn => ?_, fun q hq _ hkey => ?_⟩
    · obtain rfl : x' = x := by
        rw [hsent] at hx'
        exact (List.cons.inj (List.append_cancel_left hx')).1.symm
      rw [horder] at hn
      rcases hcovered with hpending | ⟨-, hkey | hfollows⟩
      · exact Or.inr (requested_concat.mpr (Or.inr ⟨hreq.trans hpending, hleft n hn⟩))
      · rw [hkind, hkey] at hdelta
        cases hdelta
      · rcases hfollows n hn with ⟨-, y, hy, hdst, hplace⟩ | hbefore
        · exact Or.inl ⟨y, List.mem_of_getLast? hy, hdst, hplace⟩
        · exact Or.inr (requested_concat.mpr (Or.inl hbefore))
    · rcases hcovered with hpending | ⟨hskipped, -⟩
      · exact Or.inr (hreq.trans hpending)
      · rw [hqueue, ← skipped_append_newest first rest] at hq
        rcases List.mem_append.mp hq with hold | hnew
        · rw [hskipped q hold] at hkey
          cases hkey
        · rw [List.mem_singleton.mp hnew] at hkey ⊢
          refine Or.inl ⟨x, ?_, horder⟩
          rw [hsent]
          exact List.mem_append_right _ List.mem_cons_self

theorem noGap_iff {pct now : ℕ}
    (hqueue : ((machine rs Addr packetSize).run evs).queue = first :: rest)
    (hrunning : ((machine rs Addr packetSize).run evs).running = true) :
    NoGap rs packetSize evs (Event.takeFrame pct now) ↔
      ((machine rs Addr packetSize).run evs).idrReq = true ∨
        match ((machine rs Addr packetSize).run evs).clientAddr with
        | none => first.frame.isKeyFrame = false
        | some dst => nvVideoPacketSize < packetSize →
            (∀ q ∈ (first :: rest).dropLast, q.frame.isKeyFrame = false) ∧
              Follows rs packetSize evs first rest dst := by
  constructor
  · intro h
    exact h pct now first rest rfl hqueue hrunning
  · rintro h _ _ _ _ _ hqueue' -
    cases hqueue.symm.trans hqueue'
    exact h

/-- The packetizer makes shards of a frame whenever a shard has room for payload. -/
theorem exists_packetize_iff (hrs : rs.Lawful) {f : Frame} {c : Counters} :
    (∃ p, packetize rs f c = some p) ↔ nvVideoPacketSize < f.requestedPacketSize := by
  constructor
  · rintro ⟨⟨p, c'⟩, h⟩
    obtain ⟨c₀, c₁, hshards⟩ := p.packetized
    rw [frame_of_packetize h] at hshards
    unfold packetizeFrame at hshards
    split_ifs at hshards with hsmall hnone
    unfold Frame.shardPayloadSize at hnone
    omega
  · intro hsize
    obtain ⟨shards, hsome, -⟩ := packetizeFrame_eq f hrs c hsize
    exact ⟨_, packetize_eq_some hsome⟩

/-- One event keeps the stream decodable exactly if it makes no gap. -/
theorem keepsDecodable_iff (hrs : rs.Lawful) :
    KeepsDecodable rs packetSize evs ev ↔ NoGap rs packetSize evs ev := by
  have hrun := (machine rs Addr packetSize).run_concat evs ev
  rcases effect_step packetSize ((machine rs Addr packetSize).run evs) ev with
    ⟨hrunning, heffect⟩ | ⟨hstopped, hidle⟩
  · change Effect packetSize _ ev ((machine rs Addr packetSize).step _ ev) at heffect
    rw [← hrun] at heffect
    generalize hs' : (machine rs Addr packetSize).run (evs ++ [ev]) = s' at heffect
    cases heffect with
    | other _ _ hqueue _ hsent _ hidle =>
      refine iff_of_true (.of_same (hs' ▸ hsent) (hs' ▸ hqueue ▸ List.Subset.refl _)) ?_
      intro pct now first rest hev hcons _
      obtain ⟨dst, hclient, hnone⟩ := hidle pct now first rest hev hcons
      right
      rw [hclient]
      intro hsize
      obtain ⟨p, hsome⟩ := (exists_packetize_iff (f := Task.frameOf _ packetSize pct _) hrs).mpr hsize
      rw [hnone] at hsome
      cases hsome
    | encodes frame =>
      refine iff_of_true (.of_same (hs' ▸ rfl) (hs' ▸ List.subset_append_left _ _)) ?_
      intro _ _ _ _ hev
      cases hev
    | drops pct now first rest hqueue hclient =>
      rw [keepsDecodable_iff_of_drops hqueue hs', noGap_iff hqueue hrunning, hclient]
    | sends pct now first rest dst p counters hqueue hclient hpacketize =>
      have hsize : nvVideoPacketSize < packetSize := (exists_packetize_iff hrs).mp ⟨_, hpacketize⟩
      have hkind : p.frame.isKeyFrame = (rest.getLastD first).frame.isKeyFrame :=
        congrArg Frame.isKeyFrame (frame_of_packetize hpacketize)
      have hsends := keepsDecodable_iff_of_sends pct now hqueue
        (congrArg Task.sent hs') (congrArg Task.queue hs')
        ((congrArg Task.produced hs').trans (produced_takeReset _))
        ((congrArg Task.idrReq hs').trans (idrReq_takeReset _)) rfl hkind
      rw [hsends, noGap_iff hqueue hrunning, hclient]
      exact or_congr_right ⟨fun h _ => h, fun h => h hsize⟩
  · change (machine rs Addr packetSize).step _ ev = _ at hidle
    rw [← hrun] at hidle
    refine iff_of_true (.of_same (congrArg Task.sent hidle) (hidle ▸ List.Subset.refl _)) ?_
    intro _ _ _ _ _ _ hrunning
    rw [hstopped] at hrunning
    cases hrunning

end OneEvent

/-- A run leaves the stream decodable at every event exactly if no event makes a gap. -/
theorem decodable_iff (rs : FecRs) (hrs : rs.Lawful) (Addr : Type) [DecidableEq Addr]
    (packetSize : ℕ) (evs : List (Event Addr)) :
    (∀ pre ev, pre ++ [ev] <+: evs → KeepsDecodable rs packetSize pre ev) ↔
      ∀ pre ev, pre ++ [ev] <+: evs → NoGap rs packetSize pre ev := by
  constructor
  · intro h pre ev hpre
    exact (keepsDecodable_iff hrs).mp (h pre ev hpre)
  · intro h pre ev hpre
    exact (keepsDecodable_iff hrs).mpr (h pre ev hpre)

/-- A key frame and a delta frame that each find the channel empty. -/
def singleEvents : List (Event ℕ) :=
  [Event.datagram 1 pingPayload 0, Event.encoded ⟨[7], true, 0⟩, Event.takeFrame 20 1]

theorem decodable_single : ∃ rs : FecRs, rs.Lawful ∧
    ∀ pre ev, pre ++ [ev] <+: singleEvents → KeepsDecodable rs 1024 pre ev := by
  obtain ⟨rs, hrs⟩ := FecRs.exists_lawful
  refine ⟨rs, hrs, (decodable_iff rs hrs ℕ 1024 singleEvents).mpr ?_⟩
  change ∀ pre ev, pre ++ [ev] <+: [] ++ [Event.datagram 1 pingPayload 0] ++
    [Event.encoded ⟨[7], true, 0⟩] ++ [Event.takeFrame 20 1] → NoGap rs 1024 pre ev
  refine Machine.forall_step_concat.mpr ⟨Machine.forall_step_concat.mpr
    ⟨Machine.forall_step_concat.mpr ⟨Machine.forall_step_nil, ?_⟩, ?_⟩, ?_⟩
  · intro _ _ _ _ hev
    cases hev
  · intro _ _ _ _ hev
    cases hev
  · have hqueue : ((machine rs ℕ 1024).run (singleEvents.take 2)).queue = [⟨0, [7], true, 0⟩] := rfl
    refine (noGap_iff hqueue rfl).mpr (Or.inr fun _ => ?_)
    exact ⟨fun q hq => absurd hq List.not_mem_nil, Or.inl rfl⟩

/-- A key frame and the delta frame that depends on it pile up in the channel. -/
def piledEvents : List (Event ℕ) :=
  [Event.datagram 1 pingPayload 0, Event.encoded ⟨[7], true, 0⟩, Event.encoded ⟨[8], false, 0⟩,
    Event.takeFrame 20 1]

theorem not_decodable_piled : ∃ rs : FecRs, rs.Lawful ∧
    ¬ ∀ pre ev, pre ++ [ev] <+: piledEvents → KeepsDecodable rs 1024 pre ev := by
  obtain ⟨rs, hrs⟩ := FecRs.exists_lawful
  refine ⟨rs, hrs, fun h => ?_⟩
  have hkeeps := h (piledEvents.take 3) (Event.takeFrame 20 1) (List.prefix_refl _)
  have hqueue : ((machine rs ℕ 1024).run (piledEvents.take 3)).queue =
    [⟨0, [7], true, 0⟩, ⟨1, [8], false, 0⟩] := rfl
  rcases (noGap_iff hqueue rfl).mp ((keepsDecodable_iff hrs).mp hkeeps) with hreq | hskipped
  · cases hreq
  · have hkey := (hskipped (by decide)).1 ⟨0, [7], true, 0⟩ List.mem_cons_self
    cases hkey

end KmControl.Backlog
