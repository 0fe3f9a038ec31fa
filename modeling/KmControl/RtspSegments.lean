import KmControl.HostRtsp
import KmControl.Readers

/-!
Requests that come in several reads. The loop finds what it finds in the whole text,
unless a character is divided between two reads or a piece of `streamid` is taken for the
end of a body.
-/
namespace KmControl.RtspSegments

open RtspMessage HostRtsp Replace

variable {lib : RtspTypes}

/-- `streamid` is divided by the cut between `p` and `rest`, and the part of it in `p` makes
up for what the body lacks. -/
def CutsToken (lib : RtspTypes) (p rest : Bytes) : Prop :=
  ∃ q s t, p = q ++ s ∧ Straddles streamid p rest s t ∧
    ¬ lib.Complete (fixed q) ∧ lib.Complete (fixed p)

/-- Until the message is complete, no read ends within a character, and none ends within a
`streamid` whose part completes the message. -/
def Unharmed (lib : RtspTypes) : Bytes → List Bytes → Prop
  | _, [] => True
  | raw, chunk :: reads =>
    (fromUtf8 chunk).isSome ∧ ¬ CutsToken lib (raw ++ chunk) reads.flatten ∧
      (¬ lib.Complete (fixed (raw ++ chunk)) → Unharmed lib (raw ++ chunk) reads)

section Heads

variable {x y : Bytes}

theorem not_isData_of_isPrefix (h : x <+: y) (hy : ¬ IsData y) : ¬ IsData x := by
  intro hx
  obtain ⟨z, rfl⟩ := h
  apply hy
  unfold IsData at *
  rw [List.head?_append, hx]
  rfl

/-- A text with more bytes than a complete one is read in the same way. -/
theorem parse_of_isPrefix (h : lib.Incremental) (hpre : x <+: y) (hy : ¬ IsData y)
    (hx : lib.Complete x) : lib.parse x = lib.parse y := by
  obtain ⟨z, rfl⟩ := hpre
  obtain ⟨e, he, hlen⟩ := hx
  have hbound := (headEnd_bounds he).2
  have htake : (x ++ z).take e = x.take e := List.take_append_of_le_length hbound
  have hlong : e + lib.contentLength ((x ++ z).take e) ≤ (x ++ z).length := by
    rw [htake, List.length_append]
    exact Nat.le_add_right_of_le hlen
  rw [h.trailing x e (not_isData_of_isPrefix (List.prefix_append x z) hy) he hlen,
    h.trailing (x ++ z) e hy (headEnd_append he z) hlong, htake,
    List.take_append_of_le_length hlen]

/-- Bytes after the head that come to differ give requests with different bodies. -/
theorem request_ne_of_body {Q s z : Bytes} {a b : UInt8} (h : lib.Incremental) (hab : a ≠ b)
    (hlf : ∀ c ∈ a :: s, c ≠ 10) (hshort : ¬ lib.Complete Q) (hfull : lib.Complete (Q ++ a :: s))
    {req : Request} (hreq : lib.parse (Q ++ b :: z) = .message (.request req)) :
    lib.parse (Q ++ a :: s) ≠ .message (.request req) := by
  intro hsame
  obtain ⟨e, he, hlen⟩ := hfull
  obtain ⟨hlow, hhigh⟩ := headEnd_bounds he
  have hin : e ≤ Q.length := by
    by_contra hout
    have hlast := headEnd_last he
    rw [List.getElem?_append_right (by omega)] at hlast
    exact hlf 10 (List.mem_of_getElem? hlast) rfl
  have hQ : headEnd Q = some e := headEnd_of_append he hin
  have htake : ∀ w : Bytes, (Q ++ w).take e = Q.take e := fun w =>
    List.take_append_of_le_length hin
  rw [htake] at hlen
  have hmore : Q.length < e + lib.contentLength (Q.take e) :=
    Nat.lt_of_not_le fun hle => hshort ⟨e, hQ, hle⟩
  have hbody : ∀ (c : UInt8) (w : Bytes), lib.parse (Q ++ c :: w) = .message (.request req) →
      req.body[Q.length - e]? = some c := by
    intro c w hparse
    have hindex : Q.length - e < lib.contentLength (Q.take e) := by omega
    rw [h.body _ e req (headEnd_append hQ _) hparse, htake, List.getElem?_take_of_lt hindex,
      List.getElem?_drop, Nat.add_sub_cancel' hin, List.getElem?_append_right (Nat.le_refl _),
      Nat.sub_self]
    rfl
  have heq := (hbody a s hsame).symm.trans (hbody b z hreq)
  exact hab (Option.some.inj heq)

end Heads

section Cuts

variable {p rest : Bytes}

/-- What a part of `streamid` at the end of a read becomes, and what the whole becomes. -/
theorem fixed_cut {q s t : Bytes} (hp : p = q ++ s) (hs : Straddles streamid p rest s t) :
    fixed p = fixed q ++ s ∧ ∃ z, fixed (p ++ rest) = fixed q ++ 114 :: z := by
  obtain ⟨after, rfl⟩ := hs.follows
  have hjoin : p ++ (t ++ after) = q ++ (streamid ++ after) := by
    rw [hp, hs.split]
    simp only [List.append_assoc]
  rw [hjoin, hp]
  exact ⟨fixed_part hs.left hs.right hs.split q, fixed_streamid q after⟩

/-- What has been read of a request is not taken for interleaved data. -/
theorem not_isData_of_read (hdata : ¬ IsData (fixed (p ++ rest))) : ¬ IsData (fixed p) := by
  by_cases hstraddle : ∃ s t, Straddles streamid p rest s t
  · obtain ⟨s, t, hs⟩ := hstraddle
    obtain ⟨q, hp⟩ := hs.suffix
    obtain ⟨hpart, z, hwhole⟩ := fixed_cut hp.symm hs
    obtain ⟨⟨s', rfl⟩, -⟩ := part_of_streamid hs.left hs.split
    rw [hpart]
    rw [hwhole] at hdata
    unfold IsData at *
    cases hQ : fixed q with
    | nil => exact fun hhead => absurd (Option.some.inj hhead) (by decide)
    | cons c Q =>
      rw [hQ] at hdata
      exact hdata
  · exact not_isData_of_isPrefix (fixed_isPrefix fun s t hs => hstraddle ⟨s, t, hs⟩) hdata

/-- A read that ends within `streamid` and so completes the message spoils its body. -/
theorem parse_ne_of_cutsToken (h : lib.Incremental) (hcut : CutsToken lib p rest) {req : Request}
    (hreq : lib.parse (fixed (p ++ rest)) = .message (.request req)) :
    lib.parse (fixed p) ≠ .message (.request req) ∧ lib.parse (fixed p) ≠ .incomplete := by
  have hdata : ¬ IsData (fixed p) := not_isData_of_read (h.request _ _ hreq)
  obtain ⟨q, s, t, hp, hs, hshort, hfull⟩ := hcut
  obtain ⟨hpart, z, hwhole⟩ := fixed_cut hp hs
  obtain ⟨⟨s', rfl⟩, hparts⟩ := part_of_streamid hs.left hs.split
  refine ⟨?_, h.complete _ hdata hfull⟩
  rw [hpart] at hfull ⊢
  rw [hwhole] at hreq
  exact request_ne_of_body h (by decide) (fun c hc => (hparts c hc).1) hshort hfull hreq

/-- Any other read leaves a text that is read as the whole is, once it is complete. -/
theorem parse_of_not_cutsToken (h : lib.Incremental) (hcut : ¬ CutsToken lib p rest)
    (hdata : ¬ IsData (fixed (p ++ rest))) (hfull : lib.Complete (fixed p)) :
    lib.parse (fixed p) = lib.parse (fixed (p ++ rest)) := by
  by_cases hstraddle : ∃ s t, Straddles streamid p rest s t
  · obtain ⟨s, t, hs⟩ := hstraddle
    obtain ⟨q, hp⟩ := hs.suffix
    obtain ⟨hpart, z, hwhole⟩ := fixed_cut hp.symm hs
    have hq : fixed q <+: fixed (p ++ rest) := hwhole ▸ List.prefix_append _ _
    have hqp : fixed q <+: fixed p := hpart ▸ List.prefix_append _ _
    have hbefore : lib.Complete (fixed q) := by
      by_contra hshort
      exact hcut ⟨q, s, t, hp.symm, hs, hshort, hfull⟩
    rw [← parse_of_isPrefix h hqp (not_isData_of_read hdata) hbefore,
      parse_of_isPrefix h hq hdata hbefore]
  · exact parse_of_isPrefix h (fixed_isPrefix fun s t hs => hstraddle ⟨s, t, hs⟩) hdata hfull

end Cuts

section Loop

/-- The loop from any point on: what is still to be read makes up the request. -/
theorem receive_iff (h : lib.Incremental) {req : Request} (raw : Bytes) (reads : List Bytes)
    (hne : ∀ chunk ∈ reads, chunk ≠ []) (hraw : ¬ lib.Complete (fixed raw))
    (hreq : lib.parse (fixed (raw ++ reads.flatten)) = .message (.request req)) :
    receive lib raw reads = .message (.request req) ↔ Unharmed lib raw reads := by
  have hdata := h.request _ _ hreq
  induction reads generalizing raw with
  | nil =>
    rw [List.flatten_nil, List.append_nil] at hreq hdata
    rw [h.incomplete _ hdata hraw] at hreq
    cases hreq
  | cons chunk reads ih =>
    rw [List.flatten_cons, ← List.append_assoc] at hreq hdata
    have hchunk : chunk ≠ [] := hne chunk List.mem_cons_self
    have hrest : ∀ c ∈ reads, c ≠ [] := fun c hc => hne c (List.mem_cons_of_mem _ hc)
    unfold receive Unharmed
    rw [if_neg hchunk]
    cases htext : fromUtf8 chunk with
    | none => simp
    | some text =>
      obtain rfl := eq_of_fromUtf8 htext
      simp only [Option.isSome_some, true_and]
      by_cases hcut : CutsToken lib (raw ++ text) reads.flatten
      · obtain ⟨hbad, hmore⟩ := parse_ne_of_cutsToken h hcut hreq
        refine iff_of_false ?_ fun hunharmed => hunharmed.1 hcut
        cases hparse : lib.parse (fixed (raw ++ text)) with
        | message m => exact fun heq => hbad (hparse.trans (congrArg _ (Received.message.inj heq)))
        | incomplete => exact absurd hparse hmore
        | error => exact fun heq => by cases heq
      · by_cases hfull : lib.Complete (fixed (raw ++ text))
        · rw [parse_of_not_cutsToken h hcut hdata hfull, hreq]
          exact iff_of_true rfl ⟨hcut, fun hshort => absurd hfull hshort⟩
        · rw [h.incomplete _ (not_isData_of_read hdata) hfull]
          have hgo := ih (raw ++ text) hrest hfull hreq hdata
          exact hgo.trans ⟨fun hunharmed => ⟨hcut, fun _ => hunharmed⟩, fun hunharmed =>
            hunharmed.2 hfull⟩

end Loop

section Requests

/-- The loop comes to the request that a single read of it gives exactly when the reads do it
no harm. -/
theorem receive_iff_unharmed (h : lib.Incremental) {reads : List Bytes}
    (hne : ∀ chunk ∈ reads, chunk ≠ []) {req : Request}
    (hreq : receive lib [] [reads.flatten] = .message (.request req)) :
    receive lib [] reads = .message (.request req) ↔ Unharmed lib [] reads := by
  have hparse : lib.parse (fixed reads.flatten) = .message (.request req) := by
    unfold receive at hreq
    split at hreq
    · cases hreq
    · split at hreq
      · cases hreq
      · rename_i text htext
        obtain rfl := eq_of_fromUtf8 htext
        rw [List.nil_append] at hreq
        split at hreq
        · rename_i m hm
          rw [hm, Received.message.inj hreq]
        · cases hreq
        · cases hreq
  have hnothing : ¬ lib.Complete (fixed []) := by
    rintro ⟨e, he, -⟩
    cases he
  exact receive_iff h [] reads hne hnothing hparse

/-- The bytes of an ANNOUNCE up to the middle of the only character of its body. -/
def announced : Bytes :=
  ascii "ANNOUNCE streamid=control/13/0 RTSP/1.0\r\nCSeq: 6\r\nContent-Length: 2\r\n\r\n".toList ++
    [195]

/-- What is read when the rest comes with them. -/
def announcement : Request :=
  ⟨.announce, some ⟨[("streamid".toList, "control/13/0".toList)]⟩, .v1,
    [("CSeq".toList, "6".toList), ("Content-Length".toList, "2".toList)], [195, 169]⟩

/-- A character in two reads. -/
theorem not_receive_of_flatten :
    ¬ ∀ (lib : RtspTypes) (reads : List Bytes) (req : Request), lib.Incremental →
      (∀ chunk ∈ reads, chunk ≠ []) → receive lib [] [reads.flatten] = .message (.request req) →
        receive lib [] reads = .message (.request req) := by
  intro hall
  have hwhole : receive Readers.rtspTypes [] [[announced, [169]].flatten] =
      .message (.request announcement) := by decide +kernel
  have hparts : receive Readers.rtspTypes [] [announced, [169]] = .badText := by decide +kernel
  have hsame := hall Readers.rtspTypes [announced, [169]] announcement Readers.incremental
    (by simp [announced]) hwhole
  rw [hparts] at hsame
  cases hsame

/-- The same request with the cut in the middle of `streamid`. -/
theorem receive_iff_unharmed_announced :
    receive Readers.rtspTypes [] [announced.take 12, announced.drop 12 ++ [169]] =
        .message (.request announcement) ↔
      Unharmed Readers.rtspTypes [] [announced.take 12, announced.drop 12 ++ [169]] :=
  receive_iff_unharmed Readers.incremental (by simp [announced, ascii]) (by decide +kernel)

end Requests

end KmControl.RtspSegments
