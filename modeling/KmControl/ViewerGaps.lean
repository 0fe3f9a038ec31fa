import KmControl.Viewers

/-!
What a viewer of a stream misses. The access units reach it in the order of the stream. Where
some are missing, a key frame was requested in between, at a time when the channel held the
next one as its oldest: so the answer to the request comes only after all that it held.
-/
namespace KmControl.ViewerGaps

open Broadcast Viewers

section Pages

variable {page : Page} {messages : List Bytes}

def content (message : Bytes) : Bool × Bytes := (isKey message, message.drop 1)

/-- Of the messages that a page has handled it has handed on none, or one with a key frame and
all after that. -/
inductive HandsOn (page : Page) (messages : List Bytes) : Prop
  | nothing (hcodec : page.codec = none) (hgiven : page.given = [])
  | fromKey (skipped rest : List Bytes) (first : Bytes) (hcodec : page.codec.isSome)
      (hkey : isKey first = true) (hmessages : messages = skipped ++ first :: rest)
      (hgiven : page.given.map (fun chunk => (chunk.key, chunk.data)) = (first :: rest).map content)

theorem content_decode (page : Page) (message : Bytes) (decoded : Bool) :
    (page.decode message decoded).given.map (fun chunk => (chunk.key, chunk.data)) =
      page.given.map (fun chunk => (chunk.key, chunk.data)) ++ [content message] := by
  unfold Page.decode
  rw [List.map_append]
  rfl

theorem HandsOn.onMessage (h : HandsOn page messages) (hevc : Bool) (message : Bytes)
    (configured decoded : Bool) :
    HandsOn (page.onMessage hevc message configured decoded) (messages ++ [message]) := by
  unfold Page.onMessage
  cases h with
  | nothing hcodec hgiven =>
    rw [hcodec]
    dsimp only
    split
    · rename_i hboth
      refine .fromKey messages [] message rfl (Bool.and_eq_true_iff.mp hboth).1 rfl ?_
      rw [content_decode, hgiven]
      rfl
    · exact .nothing hcodec hgiven
  | fromKey skipped rest first hcodec hkey hmessages hgiven =>
    obtain ⟨codec, hsome⟩ := Option.isSome_iff_exists.mp hcodec
    rw [hsome]
    refine .fromKey skipped (rest ++ [message]) first hcodec hkey ?_ ?_
    · rw [hmessages, List.append_assoc, List.cons_append]
    · rw [content_decode, hgiven, ← List.cons_append, List.map_append]
      rfl

theorem HandsOn.leave (h : HandsOn page messages) :
    HandsOn { page with alive := false } messages := by
  cases h with
  | nothing hcodec hgiven => exact .nothing hcodec hgiven
  | fromKey skipped rest first hcodec hkey hmessages hgiven =>
    exact .fromKey skipped rest first hcodec hkey hmessages hgiven

end Pages

section Gaps

variable {hevc : Bool} {s s' : State} {v : ℕ} {viewer viewer' : Viewer} {notes : List Note}
  {log : List (ℕ × Note)}

/-- What is true of a viewer and of the notes of its task, if key frames are requested. -/
structure Kept (s : State) (v : ℕ) (viewer : Viewer) (notes : List Note) : Prop where
  follows : ∃ start next, Follows capacity start notes next ∧
    (viewer.phase ≠ .closed → viewer.next = next)
  passed : viewer.passed = (positions notes).map fun p => s.sent.getD p []
  sent : ∀ p ∈ positions notes, p < s.sent.length
  opened : viewer.phase = .serving ∨ viewer.passed ≠ [] → ∃ n, (v, n) ∈ s.requests
  lags : ∀ n, Note.lagged n ∈ notes → (v, n) ∈ s.requests
  handled : viewer.handled ≤ viewer.passed.length
  page : HandsOn viewer.page (viewer.passed.take viewer.handled)

/-- More is sent and requested. -/
theorem Kept.mono (h : Kept s v viewer notes) (hsent : s.sent <+: s'.sent)
    (hrequests : ∀ r ∈ s.requests, r ∈ s'.requests) : Kept s' v viewer notes where
  follows := h.follows
  passed := by
    rw [h.passed]
    refine List.map_congr_left fun p hp => ?_
    obtain ⟨more, hmore⟩ := hsent
    rw [← hmore, List.getD_append _ _ _ _ (h.sent p hp)]
  sent p hp := (h.sent p hp).trans_le hsent.length_le
  opened hphase := (h.opened hphase).imp fun n hn => hrequests _ hn
  lags n hn := hrequests _ (h.lags n hn)
  handled := h.handled
  page := h.page

theorem kept_new (s : State) (v : ℕ) : Kept s v { next := s.sent.length } [] where
  follows := ⟨s.sent.length, s.sent.length, .start, fun _ => rfl⟩
  passed := rfl
  sent _ hp := absurd hp List.not_mem_nil
  opened h := h.elim (fun h => nomatch h) fun h => absurd rfl h
  lags _ hn := absurd hn List.not_mem_nil
  handled := Nat.le_refl 0
  page := .nothing rfl rfl

/-- What a move makes of a viewer, once its request has been made. -/
theorem Kept.move {note : Option Note} {asks : Bool} (h : Kept s v viewer notes)
    (hmove : Move true hevc s viewer viewer' note asks) (hsent : s.sent = s'.sent)
    (hrequests : ∀ r ∈ s.requests, r ∈ s'.requests)
    (hasks : asks = true → (v, s.sent.length) ∈ s'.requests) :
    Kept s' v viewer' (notes ++ note.toList) := by
  have hold : Kept s' v viewer notes := h.mono (hsent ▸ List.prefix_refl _) hrequests
  obtain ⟨start, next, hfollows, hnext⟩ := hold.follows
  cases hmove with
  | opened hphase =>
    rw [Option.toList_none, List.append_nil]
    have hopen : viewer.next = next := hnext (by rw [hphase]; decide)
    exact { hold with
      follows := ⟨start, next, hfollows, fun _ => hopen⟩
      opened := fun _ => ⟨_, hasks rfl⟩ }
  | closed =>
    rw [Option.toList_none, List.append_nil]
    exact { hold with
      follows := ⟨start, next, hfollows, fun h => absurd rfl h⟩
      opened := fun h => hold.opened (Or.inr (h.resolve_left fun h => nomatch h)) }
  | got frame hphase hframe =>
    obtain rfl : viewer.next = next := hnext (by rw [hphase]; decide)
    have hlt : viewer.next < s'.sent.length := by
      rw [← hsent]
      exact (List.getElem?_eq_some_iff.mp hframe).1
    have hframe' : s'.sent.getD viewer.next [] = frame := by
      rw [← hsent, List.getD_eq_getElem?_getD, hframe]
      rfl
    exact
      { follows := ⟨start, _, hfollows.got, fun _ => rfl⟩
        passed := by
          rw [Option.toList_some, positions_append, positions_got, List.map_append, ← hold.passed,
            List.map_singleton, hframe']
        sent := fun p hp => by
          rw [Option.toList_some, positions_append, positions_got] at hp
          rcases List.mem_append.mp hp with hp | hp
          · exact hold.sent p hp
          · rw [List.mem_singleton.mp hp]
            exact hlt
        opened := fun _ => hold.opened (Or.inl hphase)
        lags := fun n hn => hold.lags n ((List.mem_append.mp hn).resolve_right fun hn =>
          nomatch List.mem_singleton.mp hn)
        handled := hold.handled.trans (by rw [List.length_append]; exact Nat.le_add_right _ _)
        page := by
          change HandsOn viewer.page ((viewer.passed ++ [frame]).take viewer.handled)
          rw [List.take_append_of_le_length hold.handled]
          exact hold.page }
  | failed next' =>
    rw [Option.toList_none, List.append_nil]
    exact { hold with
      follows := ⟨start, next, hfollows, fun h => absurd rfl h⟩
      opened := fun h => hold.opened (Or.inr (h.resolve_left fun h => nomatch h)) }
  | lagged hphase hbehind =>
    obtain rfl : viewer.next = next := hnext (by rw [hphase]; decide)
    have hpositions : positions (notes ++ [.lagged s.sent.length]) = positions notes := by
      rw [positions_append, positions_lagged, List.append_nil]
    exact
      { follows := ⟨start, _, hfollows.lagged _ hbehind, fun _ => rfl⟩
        passed := by
          rw [Option.toList_some, hpositions]
          exact hold.passed
        sent := fun p hp => hold.sent p (by rwa [Option.toList_some, hpositions] at hp)
        opened := fun _ => ⟨_, hasks rfl⟩
        lags := fun n hn => by
          rcases List.mem_append.mp hn with hn | hn
          · exact hold.lags n hn
          · rw [Note.lagged.inj (List.mem_singleton.mp hn)]
            exact hasks rfl
        handled := hold.handled
        page := hold.page }
  | message message configured decoded hmessage =>
    rw [Option.toList_none, List.append_nil]
    have htake : viewer.passed.take (viewer.handled + 1) =
        viewer.passed.take viewer.handled ++ [message] := by
      rw [List.take_add_one, hmessage]
      rfl
    exact { hold with
      follows := ⟨start, next, hfollows, hnext⟩
      handled := (List.getElem?_eq_some_iff.mp hmessage).1
      page := by
        change HandsOn _ (viewer.passed.take (viewer.handled + 1))
        rw [htake]
        exact hold.page.onMessage hevc message configured decoded }
  | left =>
    rw [Option.toList_none, List.append_nil]
    exact { hold with
      follows := ⟨start, next, hfollows, hnext⟩
      page := hold.page.leave }

/-- The notes of each viewer keep what is true of it. -/
structure Watching (s : State) (log : List (ℕ × Note)) : Prop where
  kept : ∀ v viewer, s.viewers[v]? = some viewer → Kept s v viewer (notesOf v log)
  silent : ∀ v, s.viewers.length ≤ v → notesOf v log = []

theorem notesOf_cons (v v' : ℕ) (note : Note) (log : List (ℕ × Note)) :
    notesOf v ((v', note) :: log) =
      if v' = v then notesOf v log ++ [note] else notesOf v log := by
  unfold notesOf
  rw [List.filterMap_cons]
  dsimp only
  by_cases hv : v' = v
  · rw [if_pos hv, if_pos hv]
    exact List.reverse_cons
  · rw [if_neg hv, if_neg hv]

theorem notesOf_own (v : ℕ) (note : Option Note) (log : List (ℕ × Note)) :
    notesOf v ((note.map fun note => (v, note)).toList ++ log) =
      notesOf v log ++ note.toList := by
  cases note with
  | none => simp
  | some note => exact (notesOf_cons v v note log).trans (if_pos rfl)

theorem notesOf_other {v v' : ℕ} (hv : v' ≠ v) (note : Option Note) (log : List (ℕ × Note)) :
    notesOf v ((note.map fun note => (v', note)).toList ++ log) = notesOf v log := by
  cases note with
  | none => rfl
  | some note => exact (notesOf_cons v v' note log).trans (if_neg hv)

theorem Watching.effect {event : Option (ℕ × Note)} (h : Watching s log)
    (heffect : Effect true hevc s s' event) : Watching s' (event.toList ++ log) := by
  cases heffect with
  | same => exact h
  | sent frame =>
    exact ⟨fun v viewer hv => (h.kept v viewer hv).mono (List.prefix_append _ _) fun _ hr => hr,
      h.silent⟩
  | accepted =>
    refine ⟨fun v viewer hv => ?_, fun v hv => ?_⟩
    · rcases lt_trichotomy v s.viewers.length with hlt | rfl | hgt
      · refine (h.kept v viewer ?_).mono (List.prefix_refl _) fun _ hr => hr
        rwa [List.getElem?_append_left hlt] at hv
      · rw [List.getElem?_concat_length] at hv
        obtain rfl := Option.some.inj hv
        change Kept _ _ _ (notesOf _ log)
        rw [h.silent _ (Nat.le_refl _)]
        exact kept_new _ _
      · rw [List.getElem?_eq_none (by rw [List.length_append]; exact hgt)] at hv
        cases hv
    · refine h.silent v (Nat.le_trans ?_ hv)
      rw [List.length_append]
      exact Nat.le_add_right _ _
  | @moved i viewer viewer' note asks hi hmove =>
    have hrequests : ∀ r ∈ s.requests, r ∈ ((s.set i viewer').requestIdr i asks).requests := by
      intro r hr
      unfold State.requestIdr
      split
      · exact List.mem_append_left _ hr
      · exact hr
    have hasks : asks = true → (i, s.sent.length) ∈
        ((s.set i viewer').requestIdr i asks).requests := by
      rintro rfl
      exact List.mem_append_right _ (List.mem_singleton_self _)
    have hsent : s.sent = ((s.set i viewer').requestIdr i asks).sent := by
      unfold State.requestIdr
      split <;> rfl
    have hviewers : ((s.set i viewer').requestIdr i asks).viewers = s.viewers.set i viewer' := by
      unfold State.requestIdr
      split <;> rfl
    refine ⟨fun v viewer₁ hv => ?_, fun v hv => ?_⟩
    · rw [hviewers] at hv
      by_cases hiv : i = v
      · subst hiv
        rw [List.getElem?_set_self (List.getElem?_eq_some_iff.mp hi).1] at hv
        obtain rfl := Option.some.inj hv
        rw [notesOf_own]
        exact (h.kept i viewer hi).move hmove hsent hrequests hasks
      · rw [List.getElem?_set_ne hiv] at hv
        rw [notesOf_other hiv]
        exact (h.kept v viewer₁ hv).mono (hsent ▸ List.prefix_refl _) hrequests
    · rw [hviewers, List.length_set] at hv
      have hiv : i ≠ v := fun heq => absurd (List.getElem?_eq_some_iff.mp hi).1 (by omega)
      rw [notesOf_other hiv]
      exact h.silent v hv

theorem watching_run (hevc : Bool) (ops : List Op) :
    Watching ((machine true hevc).run ops) ((machine true hevc).log note ops) :=
  (machine true hevc).log_invariant note
    ⟨fun _ _ hv => absurd hv (by rw [List.getElem?_eq_none (Nat.zero_le _)]; exact nofun),
      fun _ _ => rfl⟩
    (fun s _ op h => h.effect (effect_step true hevc s op)) ops

end Gaps

section Viewing

/-- What a viewer has been sent, by the notes of its task: the access units in their order,
and where one is not followed by the next, a request for a key frame in between. -/
structure Viewed (s : State) (v : ℕ) (viewer : Viewer) (notes : List Note) : Prop where
  ordered : (positions notes).Pairwise (· < ·)
  passed : viewer.passed = (positions notes).map fun p => s.sent.getD p []
  /-- It has asked for a key frame before the first one. -/
  asked : viewer.passed ≠ [] → ∃ n, (v, n) ∈ s.requests
  gaps : ∀ p q before between after,
    notes = before ++ .got p :: (between ++ .got q :: after) → positions between = [] →
    (between = [] ∧ q = p + 1) ∨
      (∃ lags, between = lags ++ [.lagged (q + capacity)]) ∧ p + 1 < q ∧
        (v, q + capacity) ∈ s.requests
  /-- What the channel held at a request that a lag led to is sent before what came later. -/
  late : ∀ n before after, notes = before ++ .lagged n :: after →
    (∀ note ∈ after, ∃ p, note = .got p) →
      positions after = (List.range after.length).map (n - capacity + ·)
  page : HandsOn viewer.page (viewer.passed.take viewer.handled)

/-- No gap in what a viewer is shown goes without a request for a key frame. -/
theorem viewed_run (hevc : Bool) (ops : List Op) (v : ℕ) (viewer : Viewer)
    (h : ((machine true hevc).run ops).viewers[v]? = some viewer) :
    Viewed ((machine true hevc).run ops) v viewer (Viewers.notes true hevc v ops) := by
  have hkept := (watching_run hevc ops).kept v viewer h
  obtain ⟨start, next, hfollows, -⟩ := hkept.follows
  refine ⟨hfollows.ascending, hkept.passed, fun hne => hkept.opened (Or.inr hne),
    fun p q before between after hnotes hnone => ?_, fun n before after hnotes => ?_, hkept.page⟩
  · unfold Viewers.notes at hnotes
    have hmember : ∀ n ∈ between, n ∈ notesOf v ((machine true hevc).log note ops) := by
      intro n hn
      rw [hnotes]
      exact List.mem_append_right _ (List.mem_cons_of_mem _ (List.mem_append_left _ hn))
    rw [hnotes] at hfollows
    rcases hfollows.next_got hnone with hnext | ⟨lags, hlags, hlt⟩
    · exact Or.inl hnext
    · refine Or.inr ⟨⟨lags, hlags⟩, hlt, hkept.lags _ (hmember _ ?_)⟩
      rw [hlags]
      exact List.mem_append_right _ (List.mem_singleton_self _)
  · unfold Viewers.notes at hnotes
    rw [hnotes] at hfollows
    exact hfollows.after_lag

/-- A viewer that is shown a key frame and the delta after it. -/
def watching : List Op :=
  [.accept, .upgrade 0 true, .broadcast [1, 7], .broadcast [0, 8], .receive 0 true,
    .receive 0 true, .message 0 true true, .message 0 true true]

theorem viewed_run_watching : ∃ viewer,
    ((machine true false).run watching).viewers[0]? = some viewer ∧
      viewer.page.given.length = 2 ∧
      Viewed ((machine true false).run watching) 0 viewer (Viewers.notes true false 0 watching) :=
  ⟨_, rfl, rfl, viewed_run false watching 0 _ rfl⟩

end Viewing

end KmControl.ViewerGaps
