import UltraGrid.Rtp.Pbuf.Lifecycle

/-!
# Delivery of frames to `decode_func`

`pbuf_insert` gives a new frame the playout time `now + (playout_delay_us + 1000 * offset_ms) *
1000`, appends it at the tail and marks the old tail completed; `pbuf_decode` hands over the
first frame of the list that is undecoded, due and complete, and completes the incomplete frames
it passes a second after their playout time. Every frame with one behind it is complete, so only
the tail can hold up a pass of `pbuf_decode`.

Two properties of delivery follow along every run. While the playout times of new frames never
go back, every frame is due no later than the frames behind it, so the frames reach
`decode_func` in the order they were created: by the node counter, in increasing address order.
And once the clock is a second past every playout time, as many calls of `pbuf_decode` as there
are frames, and one more, hand over every frame not handed over yet, in list order.

## Main definitions

* `playoutDelayAfter`, `insertPlayoutTimes` — the playout delay a call leaves, and the playout
  times `pbuf_insert` computes along a list of calls.
* `Matured` — what a call may do to a held frame.
* `CompleteBefore`, `DecodeBefore`, `InOrder` — the orders of the frame list, and the invariant
  of the frames handed over.
* `undecodedAddrs`, `pendingPasses` — the frames still to hand over, and the passes it takes.

## Main statements

* `inOrder_absStep` — every call keeps `InOrder` when a new frame is due no earlier than the
  held ones.
* `run_decode_inOrder` — along every run whose playout times never go back, the frames are
  handed to `decode_func` in the order they were created.
* `run_decode_drains` — a second after every playout time, `pbuf_decode` drains the buffer.
-/

namespace UltraGrid.Rtp

/-! ## The playout times of new frames -/

/-- The playout delay after `op`: only `pbuf_set_playout_delay` changes it. -/
def playoutDelayAfter (delayUs : Int) : Op → Int
  | .setPlayoutDelay us => us
  | _ => delayUs

/-- The playout times `pbuf_insert` computes along `ops` from the playout delay `delayUs`, one
per call, whether the call creates a frame or not. -/
def insertPlayoutTimes (delayUs : Int) : List Op → List Int
  | [] => []
  | .insert _ now offsetMs _ :: ops =>
    (now + (delayUs + 1000 * offsetMs) * 1000) :: insertPlayoutTimes delayUs ops
  | .decode _ _ :: ops => insertPlayoutTimes delayUs ops
  | .remove _ :: ops => insertPlayoutTimes delayUs ops
  | .setPlayoutDelay us :: ops => insertPlayoutTimes us ops

theorem insertPlayoutTimes_append (delayUs : Int) (xs ys : List Op) :
    insertPlayoutTimes delayUs (xs ++ ys) = insertPlayoutTimes delayUs xs ++
      insertPlayoutTimes (xs.foldl playoutDelayAfter delayUs) ys := by
  induction xs generalizing delayUs with
  | nil => rfl
  | cons op xs ih => cases op <;> simp [insertPlayoutTimes, playoutDelayAfter, ih]

theorem isPrefix_insertPlayoutTimes {delayUs : Int} {xs ys : List Op} (h : xs <+: ys) :
    insertPlayoutTimes delayUs xs <+: insertPlayoutTimes delayUs ys := by
  obtain ⟨zs, rfl⟩ := h
  rw [insertPlayoutTimes_append]
  exact List.prefix_append _ _

/-- From a good buffer every call whose allocations succeed leaves the playout delay as
`playoutDelayAfter` says. -/
theorem step_playoutDelayUs {b : Pbuf} {L : List Held} (h : Good b L) {op : Op}
    (hop : op.MallocOk) {b' : Pbuf} {h' : Option Nat} (e : step b op = some (b', h')) :
    b'.playoutDelayUs = playoutDelayAfter b.playoutDelayUs op := by
  cases op with
  | insert pkt now offsetMs mallocOk =>
    obtain rfl : mallocOk = true := hop
    obtain ⟨b₁, r, e₁, -, hf, hl, hd, hn, hc⟩ := insertStats_spec h.stats pkt
    obtain ⟨frst, last, nodes, cdata, -, e₂, -⟩ :=
      insertFrame_spec (h.layout.of_eq hf hl hn hc) h.wf pkt now offsetMs
    simp only [step, pbufInsert, e₁, e₂, Option.bind_eq_bind, Option.some_bind, Option.pure_def,
      Option.map_some', Option.some.injEq, Prod.mk.injEq] at e
    rw [← e.1]; exact hd
  | decode now df =>
    obtain ⟨nodes, -, e₁, -⟩ := pbufDecode_spec now df h.layout
    simp only [step, e₁, Option.map_some', Option.some.injEq, Prod.mk.injEq] at e
    rw [← e.1]; rfl
  | remove now =>
    obtain ⟨frst, last, nodes, cdata, -, e₁, -⟩ := pbufRemove_spec h.layout now
    simp only [step, e₁, Option.map_some', Option.some.injEq, Prod.mk.injEq] at e
    rw [← e.1]; rfl
  | setPlayoutDelay us =>
    cases e; rfl

/-! ## What a call does to a held frame -/

/-- `y` is the held frame `x` after a call: at the same address, due at the same time, and
complete and decoded if `x` was. -/
def Matured (x y : Nat × Frame) : Prop :=
  y.1 = x.1 ∧ y.2.playoutTime = x.2.playoutTime ∧ (x.2.complete → y.2.complete) ∧
    (y.2.decoded = false → x.2.decoded = false)

theorem Matured.refl (x : Nat × Frame) : Matured x x := ⟨rfl, rfl, id, id⟩

theorem matured_addPacket (a : Nat) (f : Frame) (pkt : RtpPacket) :
    Matured (a, f) (a, f.addPacket pkt) :=
  ⟨rfl, rfl, fun h => by
    simp only [Frame.complete, Frame.addPacket, Bool.or_eq_true] at h ⊢
    rcases h with h | h <;> simp [h], id⟩

theorem matured_completed (a : Nat) (f : Frame) :
    Matured (a, f) (a, { f with completed := true }) :=
  ⟨rfl, rfl, fun _ => by simp [Frame.complete], id⟩

theorem matured_decoded (a : Nat) (f : Frame) : Matured (a, f) (a, { f with decoded := true }) :=
  ⟨rfl, rfl, id, fun h => absurd h (by simp)⟩

theorem matured_grace (now : Int) (x : Nat × Frame) : Matured x (x.1, x.2.grace now) := by
  unfold Frame.grace
  split_ifs
  exacts [matured_completed x.1 x.2, .refl x]

/-- Each frame after `fileFrame` is the new one or a held frame matured. -/
theorem matured_of_mem_fileFrame {F : List (Nat × Frame)} {pkt : RtpPacket} {fresh : Nat}
    {pt : Int} {x' : Nat × Frame} (h : x' ∈ fileFrame F pkt fresh pt) :
    x' = (fresh, Frame.new pkt pt) ∨ ∃ x ∈ F, Matured x x' := by
  rcases mem_fileFrame h with e | ⟨x, hx, e, e' | e' | ⟨e', -⟩⟩
  · exact .inl e
  all_goals refine .inr ⟨x, hx, e, ?_⟩; rw [e']
  exacts [(Matured.refl x).2, (matured_addPacket x.1 x.2 pkt).2, (matured_completed x.1 x.2).2]

/-- Each frame after `decodeFrames` is a held frame matured. -/
theorem matured_of_mem_decodeFrames {F : List (Nat × Frame)} {now : Int} {x' : Nat × Frame}
    (h : x' ∈ (decodeFrames now F).1) : ∃ x ∈ F, Matured x x' := by
  obtain ⟨x, hx, e, e' | e' | ⟨e', -⟩⟩ := mem_decodeFrames h
  all_goals refine ⟨x, hx, e, ?_⟩; rw [e']
  exacts [(Matured.refl x).2, (matured_decoded x.1 x.2).2, (matured_completed x.1 x.2).2]

/-! ## Orders every call keeps -/

section Kept

variable {R : Nat × Frame → Nat × Frame → Prop}

theorem pairwise_map_matured (hR : ∀ {x y x' y'}, R x y → Matured x x' → Matured y y' → R x' y')
    {F : List (Nat × Frame)} (h : F.Pairwise R) {g : Nat × Frame → Nat × Frame}
    (hg : ∀ x, Matured x (g x)) : (F.map g).Pairwise R :=
  List.pairwise_map.2 (h.imp fun hxy => hR hxy (hg _) (hg _))

/-- `pbuf_insert` keeps an order of the frame list that maturing keeps, that puts only complete
frames first, and that holds between every complete frame and the new one. -/
theorem pairwise_fileFrame (hR : ∀ {x y x' y'}, R x y → Matured x x' → Matured y y' → R x' y')
    (hc : ∀ {x y}, R x y → x.2.complete) {F : List (Nat × Frame)} (h : F.Pairwise R)
    (pkt : RtpPacket) (fresh : Nat) (pt : Int)
    (hnew : ∀ x ∈ F, ∀ x', Matured x x' → x'.2.complete → R x' (fresh, Frame.new pkt pt)) :
    (fileFrame F pkt fresh pt).Pairwise R := by
  rcases e : F.getLast? with _ | ⟨l, fl⟩
  · simp [fileFrame, e]
  · have hl : (l, fl) ∈ F := List.mem_of_getLast?_eq_some e
    obtain ⟨F₀, rfl⟩ := List.getLast?_eq_some_iff.1 e
    simp only [fileFrame, e]
    split_ifs
    · refine pairwise_map_matured hR h fun x => ?_
      split_ifs
      exacts [matured_addPacket x.1 x.2 pkt, .refl x]
    · rw [List.dropLast_concat]
      obtain ⟨h₀, -, h₁⟩ := List.pairwise_append.1 h
      have hl' : ∀ x ∈ F₀, R x (l, fl) := fun x hx => h₁ x hx _ (List.mem_singleton_self _)
      have hm := matured_completed l fl
      refine List.pairwise_append.2 ⟨h₀, List.pairwise_pair.2
        (hnew _ hl _ hm (by simp [Frame.complete])), fun x hx y hy => ?_⟩
      rcases List.mem_pair.1 hy with rfl | rfl
      · exact hR (hl' x hx) (.refl x) hm
      · exact hnew x (List.mem_append_left _ hx) x (.refl x) (hc (hl' x hx))
    · exact h

/-- `pbuf_decode` keeps every order of the frame list that maturing keeps. -/
theorem pairwise_decodeFrames
    (hR : ∀ {x y x' y'}, R x y → Matured x x' → Matured y y' → R x' y') (now : Int) :
    ∀ {F : List (Nat × Frame)}, F.Pairwise R → (decodeFrames now F).1.Pairwise R
  | [], _ => .nil
  | (a, f) :: F, h => by
    obtain ⟨hx, hF⟩ := List.pairwise_cons.1 h
    have hrest : ∀ f', Matured (a, f) (a, f') →
        ((a, f') :: (decodeFrames now F).1).Pairwise R := fun f' hm =>
      List.pairwise_cons.2 ⟨fun y' hy' => by
        obtain ⟨y, hy, hyy⟩ := matured_of_mem_decodeFrames hy'
        exact hR (hx y hy) hm hyy, pairwise_decodeFrames hR now hF⟩
    simp only [decodeFrames]
    split_ifs
    · exact List.pairwise_cons.2 ⟨fun y hy => hR (hx y hy) (matured_decoded a f) (.refl y), hF⟩
    · exact hrest _ (matured_completed a f)
    all_goals exact hrest f (.refl _)

end Kept

/-- `x`, standing before another frame, is complete. -/
def CompleteBefore (x _ : Nat × Frame) : Prop := x.2.complete

/-- Every call keeps the frames before the tail complete. -/
theorem completeBefore_absStep {F : List (Nat × Frame)} (h : F.Pairwise CompleteBefore)
    (next : Nat) (delayUs : Int) (op : Op) : (absStep F next delayUs op).1.Pairwise CompleteBefore := by
  have hR : ∀ {x y x' y' : Nat × Frame}, CompleteBefore x y → Matured x x' → Matured y y' →
      CompleteBefore x' y' := fun h hx _ => hx.2.2.1 h
  cases op with
  | insert pkt now offsetMs mallocOk =>
    cases mallocOk
    · exact h
    · exact pairwise_fileFrame hR id h pkt next _ fun _ _ _ _ hc => hc
  | decode now _ => exact pairwise_decodeFrames hR now h
  | remove now => exact h.sublist (List.dropWhile_suffix _).sublist
  | setPlayoutDelay _ => exact h

/-! ## The order of delivery -/

/-- `x` stands before `y` as the decode order needs: created before it, due no later, and
complete. -/
def DecodeBefore (x y : Nat × Frame) : Prop :=
  x.1 < y.1 ∧ x.2.playoutTime ≤ y.2.playoutTime ∧ x.2.complete

theorem DecodeBefore.matured {x y x' y' : Nat × Frame} (h : DecodeBefore x y)
    (hx : Matured x x') (hy : Matured y y') : DecodeBefore x' y' := by
  obtain ⟨hlt, hle, hc⟩ := h
  exact ⟨by rw [hx.1, hy.1]; exact hlt, by rw [hx.2.1, hy.2.1]; exact hle, hx.2.2.1 hc⟩

/-- The frame list is in decode order, the frames handed over so far were handed over in
creation order, and every frame still undecoded was created after all of them. -/
structure InOrder (F : List (Nat × Frame)) (hs : List Nat) : Prop where
  frames : F.Pairwise DecodeBefore
  handed : hs.Pairwise (· < ·)
  undecoded : ∀ a ∈ hs, ∀ x ∈ F, x.2.decoded = false → a < x.1

/-- A call that only matures the held frames, in an order it keeps, keeps `InOrder`. -/
theorem InOrder.of_matured {F F' : List (Nat × Frame)} {hs : List Nat} (h : InOrder F hs)
    (hP : F'.Pairwise DecodeBefore) (hm : ∀ x' ∈ F', ∃ x ∈ F, Matured x x') : InOrder F' hs :=
  ⟨hP, h.handed, fun a ha x' hx' hd => by
    obtain ⟨x, hx, hxx⟩ := hm x' hx'
    rw [hxx.1]; exact h.undecoded a ha x hx (hxx.2.2.2 hd)⟩

/-- `pbuf_insert` keeps `InOrder` when the new frame is due no earlier than the held ones and
its address is above all addresses seen so far. -/
theorem inOrder_fileFrame {F : List (Nat × Frame)} {hs : List Nat} (h : InOrder F hs)
    {fresh : Nat} (hF : ∀ x ∈ F, x.1 < fresh) (hlt : ∀ a ∈ hs, a < fresh) (pkt : RtpPacket)
    {pt : Int} (hpt : ∀ x ∈ F, x.2.playoutTime ≤ pt) : InOrder (fileFrame F pkt fresh pt) hs := by
  refine ⟨pairwise_fileFrame DecodeBefore.matured (fun h => h.2.2) h.frames pkt fresh pt
    fun x hx x' hxx hc => ⟨by rw [hxx.1]; exact hF x hx, by rw [hxx.2.1]; exact hpt x hx, hc⟩,
    h.handed, fun a ha x' hx' hd => ?_⟩
  rcases matured_of_mem_fileFrame hx' with rfl | ⟨x, hx, hxx⟩
  · exact hlt a ha
  · rw [hxx.1]; exact h.undecoded a ha x hx (hxx.2.2.2 hd)

/-- `pbuf_decode` keeps `InOrder`: the frame it hands over, the first ready one, is undecoded, so
it was created after every frame handed over before; the frames before it are due and complete
when it is, so they are decoded, and the undecoded frames after it were created after it. -/
theorem inOrder_decodeFrames {F : List (Nat × Frame)} {hs : List Nat} (h : InOrder F hs)
    (now : Int) : InOrder (decodeFrames now F).1 (hs ++ (decodeFrames now F).2.toList) := by
  have hP := pairwise_decodeFrames DecodeBefore.matured now h.frames
  have hm : ∀ x' ∈ (decodeFrames now F).1, ∃ x ∈ F, Matured x x' :=
    fun _ => matured_of_mem_decodeFrames
  have hTD := List.takeWhile_append_dropWhile (fun x : Nat × Frame => !x.2.ready now) F
  have hhead := List.head_dropWhile_not (fun x : Nat × Frame => !x.2.ready now) F
  have hT := @List.mem_takeWhile_imp _ (fun x : Nat × Frame => !x.2.ready now) F
  rw [decodeFrames_eq_decodeSpec] at hP hm ⊢
  unfold decodeSpec at hP hm ⊢
  generalize F.takeWhile (fun x => !x.2.ready now) = T at hTD hT hP hm ⊢
  rcases hD : F.dropWhile (fun x => !x.2.ready now) with _ | ⟨⟨a, f⟩, S⟩
  · simp only [hD] at hP hm ⊢
    simpa using h.of_matured hP hm
  rw [hD] at hTD hhead
  simp only [hD, Option.toList_some] at hP hm ⊢
  have hf : f.ready now := by simpa using hhead (List.cons_ne_nil _ _)
  simp only [Frame.ready, Bool.and_eq_true, decide_eq_true_eq, Bool.not_eq_true'] at hf
  have hfr := h.frames
  rw [← hTD, List.pairwise_append, List.pairwise_cons] at hfr
  obtain ⟨-, ⟨hPa, -⟩, hcross⟩ := hfr
  -- the frames before the handed one are decoded
  have hdec : ∀ x ∈ T, x.2.decoded = true := fun x hx => by
    have hr := hT hx
    obtain ⟨-, hle, hc⟩ := hcross x hx _ (List.mem_cons_self _ _)
    dsimp only at hle
    cases hd : x.2.decoded
    · simp only [Frame.ready, hd, hc, Bool.not_false, Bool.true_and, Bool.and_true,
        Bool.not_eq_true', decide_eq_false_iff_not] at hr
      omega
    · rfl
  refine ⟨hP, List.pairwise_append.2 ⟨h.handed, List.pairwise_singleton _ a,
    fun c hc a' ha' => ?_⟩, fun c hc x' hx' hd => ?_⟩
  · rw [List.mem_singleton.1 ha']
    exact h.undecoded c hc _ (hTD ▸ List.mem_append_right _ (List.mem_cons_self _ _)) hf.1.1
  rcases List.mem_append.1 hc with hc | hc
  · obtain ⟨x, hx, hxx⟩ := hm x' hx'
    rw [hxx.1]; exact h.undecoded c hc x hx (hxx.2.2.2 hd)
  rw [List.mem_singleton.1 hc]
  rcases List.mem_append.1 hx' with hx' | hx'
  · obtain ⟨x, hx, rfl⟩ := List.mem_map.1 hx'
    exact absurd ((matured_grace now x).2.2.2 hd) (by simp [hdec x hx])
  rcases List.mem_cons.1 hx' with rfl | hx'
  · exact absurd hd (by simp)
  · exact (hPa x' hx').1

/-- `pbuf_remove` evicts a prefix, which keeps `InOrder`. -/
theorem inOrder_removeFrames {F : List (Nat × Frame)} {hs : List Nat} (h : InOrder F hs)
    (now : Int) : InOrder (removeFrames now F) hs :=
  have hsub := (List.dropWhile_suffix fun x : Nat × Frame => Evictable now x.2).sublist
  ⟨h.frames.sublist hsub, h.handed, fun a ha x hx => h.undecoded a ha x (hsub.subset hx)⟩

/-- Every call keeps `InOrder` when a frame it may create is due no earlier than the held ones
and takes an address above all addresses seen so far. -/
theorem inOrder_absStep {next : Nat} {F : List (Nat × Frame)} {hs : List Nat} (h : InOrder F hs)
    (hF : ∀ x ∈ F, x.1 < next) (hlt : ∀ a ∈ hs, a < next) (delayUs : Int) (op : Op)
    (hpt : ∀ pt ∈ insertPlayoutTimes delayUs [op], ∀ x ∈ F, x.2.playoutTime ≤ pt) :
    InOrder (absStep F next delayUs op).1 (hs ++ (absStep F next delayUs op).2.toList) := by
  cases op with
  | insert pkt now offsetMs mallocOk =>
    cases mallocOk
    · simpa [absStep] using h
    · simpa [absStep] using inOrder_fileFrame h hF hlt pkt (hpt _ (by simp [insertPlayoutTimes]))
  | decode now _ => exact inOrder_decodeFrames h now
  | remove now => simpa [absStep] using inOrder_removeFrames h now
  | setPlayoutDelay _ => simpa [absStep] using h

/-- After a call every frame is due at a time a held frame was due at, or at the one
`pbuf_insert` computed. -/
theorem playoutTime_mem_absStep {F : List (Nat × Frame)} {next : Nat} {delayUs : Int} {op : Op}
    {x' : Nat × Frame} (hx' : x' ∈ (absStep F next delayUs op).1) :
    (∃ x ∈ F, x'.2.playoutTime = x.2.playoutTime) ∨
      x'.2.playoutTime ∈ insertPlayoutTimes delayUs [op] := by
  cases op with
  | insert pkt now offsetMs mallocOk =>
    cases mallocOk
    · exact .inl ⟨x', hx', rfl⟩
    rcases matured_of_mem_fileFrame hx' with rfl | ⟨x, hx, hxx⟩
    · exact .inr (by simp [insertPlayoutTimes, Frame.new])
    · exact .inl ⟨x, hx, hxx.2.1⟩
  | decode now _ =>
    obtain ⟨x, hx, hxx⟩ := matured_of_mem_decodeFrames hx'
    exact .inl ⟨x, hx, hxx.2.1⟩
  | remove now => exact .inl ⟨x', (List.dropWhile_suffix _).subset hx', rfl⟩
  | setPlayoutDelay _ => exact .inl ⟨x', hx', rfl⟩

/-! ## Along a run -/

/-- The invariant after the calls `done` from `pbuf_init`: the playout delay is the one the calls
left, each frame is handed over once and in order, and every frame is due at a time
`pbuf_insert` computed. -/
structure OrderInv (done : List Op) (b : Pbuf) (L : List Held) (hs : List Nat) : Prop where
  delay : b.playoutDelayUs = done.foldl playoutDelayAfter pbufInit.playoutDelayUs
  once : HandedOnce b.nodes.next (frames L) hs
  inOrder : InOrder (frames L) hs
  playout : ∀ x ∈ frames L, x.2.playoutTime ∈ insertPlayoutTimes pbufInit.playoutDelayUs done

/-- Every call with its allocations succeeding keeps `OrderInv` while the playout times of the
calls so far never go back. -/
theorem OrderInv.step {done : List Op} {b : Pbuf} {L : List Held} {hs : List Nat} {op : Op}
    {b' : Pbuf} {h' : Option Nat} {L' : List Held} (g : Good b L) (hp : OrderInv done b L hs)
    (hop : op.MallocOk) (e : step b op = some (b', h'))
    (hL : (frames L', h') = absStep (frames L) b.nodes.next b.playoutDelayUs op)
    (hle : b.nodes.next ≤ b'.nodes.next)
    (hsorted : (insertPlayoutTimes pbufInit.playoutDelayUs (done ++ [op])).Pairwise (· ≤ ·)) :
    OrderInv (done ++ [op]) b' L' (hs ++ h'.toList) := by
  have hFL : frames L' = _ := congrArg Prod.fst hL
  obtain rfl : h' = _ := congrArg Prod.snd hL
  have hF : ∀ x ∈ frames L, x.1 < b.nodes.next := fun x hx => by
    obtain ⟨x₀, hx₀, rfl⟩ := List.mem_map.1 hx
    exact g.lt_next hx₀
  rw [insertPlayoutTimes_append, ← hp.delay] at hsorted
  refine ⟨by rw [step_playoutDelayUs g hop e, hp.delay, List.foldl_concat],
    hFL ▸ handedOnce_absStep hp.once (frames_map_fst L ▸ g.layout.nodup) hF hle _ op,
    hFL ▸ inOrder_absStep hp.inOrder hF hp.once.2.1 _ op fun pt hpt x hx =>
      (List.pairwise_append.1 hsorted).2.2 _ (hp.playout x hx) pt hpt, fun x' hx' => ?_⟩
  rw [hFL] at hx'
  rw [insertPlayoutTimes_append, ← hp.delay]
  rcases playoutTime_mem_absStep hx' with ⟨x, hx, e'⟩ | hx''
  · exact e' ▸ List.mem_append_left _ (hp.playout x hx)
  · exact List.mem_append_right _ hx''

/-- While the playout times `pbuf_insert` computes never go back, so that the clock, the playout
delay and the offsets never do, `pbuf_decode` hands the frames to `decode_func` in the order
they were created: the addresses the node counter gave them strictly increase along every run
whose allocations succeed. -/
theorem run_decode_inOrder (ops : List Op) (hok : ∀ op ∈ ops, op.MallocOk)
    (hpt : (insertPlayoutTimes pbufInit.playoutDelayUs ops).Pairwise (· ≤ ·)) :
    ∃ b hs, run pbufInit ops = some (b, hs) ∧ hs.Pairwise (· < ·) := by
  obtain ⟨b, hs, L, e, -, hp⟩ := run_invariant
    (fun done b L hs => done <+: ops → OrderInv done b L hs)
    (fun done b L hs op b' h' L' g hp e _ hL hle hpre =>
      (hp ((List.prefix_append done [op]).trans hpre)).step g
        (hok op (hpre.subset (List.mem_append_right _ (List.mem_singleton_self op)))) e hL hle
        (hpt.sublist (isPrefix_insertPlayoutTimes hpre).sublist))
    ops [] pbufInit [] [] good_pbufInit
    (fun _ => ⟨rfl, handedOnce_nil, ⟨by simp [frames], by simp, by simp⟩, by simp [frames]⟩) hok
  exact ⟨b, hs, e, by simpa using (hp (by simp)).inOrder.handed⟩

theorem run_decode_inOrder_twoFrames :
    ∃ b hs, run pbufInit [.insert ⟨100, 0, false, 0, []⟩ 0 0 true,
      .insert ⟨200, 1, true, 0, []⟩ 1000 0 true, .decode 32000001 fun _ _ => 0,
      .decode 32001001 fun _ _ => 0] = some (b, hs) ∧ hs.Pairwise (· < ·) :=
  run_decode_inOrder _ (by simp [Op.MallocOk]) (by decide)

/-- With the playout delay lowered from 32 ms to none, the second frame is due first and
`pbuf_decode` hands it to `decode_func` before the first. -/
theorem run_decode_outOfOrder :
    ∃ b, run pbufInit [.insert ⟨100, 0, false, 0, []⟩ 0 0 true, .setPlayoutDelay 0,
      .insert ⟨200, 1, true, 0, []⟩ 1 0 true, .decode 2 fun _ _ => 0,
      .decode 32000001 fun _ _ => 0] = some (b, [1, 0]) :=
  ⟨_, rfl⟩

/-! ## Draining the buffer -/

/-- The addresses of the frames not handed over yet, in list order. -/
def undecodedAddrs (F : List (Nat × Frame)) : List Nat :=
  (F.filter fun x => !x.2.decoded).map Prod.fst

/-- The passes of `pbuf_decode` the frame list still needs: one per undecoded frame, and one
more per undecoded frame the grace timeout has to complete first. -/
def pendingPasses (F : List (Nat × Frame)) : Nat :=
  F.countP (fun x => !x.2.decoded) + F.countP (fun x => !x.2.decoded && !x.2.complete)

theorem undecodedAddrs_cons (a : Nat) (f : Frame) (F : List (Nat × Frame)) :
    undecodedAddrs ((a, f) :: F) = if f.decoded then undecodedAddrs F else a :: undecodedAddrs F := by
  cases h : f.decoded <;> simp [undecodedAddrs, h]

theorem pendingPasses_cons (a : Nat) (f : Frame) (F : List (Nat × Frame)) :
    pendingPasses ((a, f) :: F) =
      pendingPasses F + if f.decoded then 0 else if f.complete then 1 else 2 := by
  unfold pendingPasses
  cases hd : f.decoded <;> cases hc : f.complete <;> simp [List.countP_cons, hd, hc] <;> omega

/-- With the frames before the tail complete, at most one pass goes to the grace timeout. -/
theorem pendingPasses_le {F : List (Nat × Frame)} (h : F.Pairwise CompleteBefore) :
    pendingPasses F ≤ F.length + 1 := by
  have : F.countP (fun x => !x.2.decoded && !x.2.complete) ≤ 1 := by
    induction F with
    | nil => simp
    | cons x F ih =>
      obtain ⟨hx, hF⟩ := List.pairwise_cons.1 h
      rcases F with _ | ⟨y, F⟩
      · simp only [List.countP_cons, List.countP_nil]; split <;> simp
      · have hc : x.2.complete := hx y (List.mem_cons_self _ _)
        simpa [List.countP_cons, hc] using ih hF
  exact Nat.add_le_add (List.countP_le_length _) this

/-- A pass of `pbuf_decode` more than a second after every playout time hands over the first
undecoded frame, or completes it when it is the incomplete tail: the frames still to hand over
keep their order, and one pass fewer is pending. -/
theorem decodeFrames_overdue {now : Int} :
    ∀ {F : List (Nat × Frame)}, F.Pairwise CompleteBefore →
      (∀ x ∈ F, x.2.playoutTime + oneSecond < now) →
      (decodeFrames now F).2.toList ++ undecodedAddrs (decodeFrames now F).1 = undecodedAddrs F ∧
        pendingPasses (decodeFrames now F).1 = pendingPasses F - 1
  | [], _, _ => by simp [decodeFrames, undecodedAddrs, pendingPasses]
  | (a, f) :: F, h, hnow => by
    obtain ⟨hf, hF⟩ := List.pairwise_cons.1 h
    have hover : f.playoutTime + oneSecond < now := hnow _ (List.mem_cons_self _ _)
    have hdue : now > f.playoutTime := by simp only [oneSecond] at hover; omega
    cases hd : f.decoded
    · cases hc : f.complete
      · -- the incomplete tail, completed by the grace timeout
        obtain rfl : F = [] := List.eq_nil_iff_forall_not_mem.2 fun y hy => by
          simpa [CompleteBefore, hc] using hf y hy
        simp only [Frame.complete, Bool.or_eq_false_iff] at hc
        simp [decodeFrames, hd, hc, hdue, hover, undecodedAddrs_cons, pendingPasses_cons,
          Frame.complete]
      · -- the first undecoded frame, handed over
        simp [decodeFrames, hd, hc, hdue, undecodedAddrs_cons, pendingPasses_cons]
    · -- a decoded frame, passed over
      obtain ⟨ih₁, ih₂⟩ := decodeFrames_overdue hF fun x hx => hnow x (List.mem_cons_of_mem _ hx)
      simp only [decodeFrames, hd, Bool.not_true, Bool.false_eq_true, false_and, if_false]
      simpa only [undecodedAddrs_cons, pendingPasses_cons, hd, if_true, add_zero] using
        And.intro ih₁ ih₂

/-- From a good buffer whose frames before the tail are complete, `k` calls of `pbuf_decode`
more than a second after every playout time hand over the undecoded frames in list order and
leave every frame decoded, once `k` covers the pending passes. -/
theorem run_replicate_decode (now : Int) (df : DecodeFrame) :
    ∀ (k : Nat) (b : Pbuf) (L : List Held), Good b L → (frames L).Pairwise CompleteBefore →
      (∀ x ∈ frames L, x.2.playoutTime + oneSecond < now) → pendingPasses (frames L) ≤ k →
      ∃ b' L', run b (List.replicate k (.decode now df)) = some (b', undecodedAddrs (frames L)) ∧
        Good b' L' ∧ ∀ x ∈ frames L', x.2.decoded
  | 0, b, L, g, _, _, hk => by
    have h0 : (frames L).countP (fun x => !x.2.decoded) = 0 := by unfold pendingPasses at hk; omega
    rw [List.countP_eq_zero] at h0
    refine ⟨b, L, ?_, g, fun x hx => by simpa using h0 x hx⟩
    simp only [List.replicate_zero, run, undecodedAddrs, List.filter_eq_nil_iff.2 h0, List.map_nil]
  | k + 1, b, L, g, hc, hnow, hk => by
    obtain ⟨b₁, h₁, L₁, e₁, g₁, hL, -⟩ := @step_spec b L g (.decode now df) trivial
    have hL₁ : frames L₁ = (decodeFrames now (frames L)).1 := congrArg Prod.fst hL
    have hh₁ : h₁ = (decodeFrames now (frames L)).2 := congrArg Prod.snd hL
    obtain ⟨hu, hp⟩ := decodeFrames_overdue hc hnow
    obtain ⟨b', L', e', g', hd⟩ := run_replicate_decode now df k b₁ L₁ g₁
      (hL₁ ▸ pairwise_decodeFrames (fun h hx _ => hx.2.2.1 h) now hc)
      (fun x hx => by
        rw [hL₁] at hx
        obtain ⟨y, hy, hyy⟩ := matured_of_mem_decodeFrames hx
        rw [hyy.2.1]; exact hnow y hy)
      (by rw [hL₁, hp]; omega)
    refine ⟨b', L', ?_, g', hd⟩
    rw [← hu, ← hh₁, ← hL₁]
    simp [run, e₁, e']

/-- Along every run whose allocations succeed, once the clock is more than a second past the
playout time of every frame held, as many calls of `pbuf_decode` as there are frames, and one
more, hand every frame not handed over yet to `decode_func`, each once and in list order, and
leave every frame decoded: no frame is held up for good. -/
theorem run_decode_drains (ops : List Op) (hok : ∀ op ∈ ops, op.MallocOk) :
    ∃ b hs L, run pbufInit ops = some (b, hs) ∧ Layout b L ∧
      ∀ now df, (∀ x ∈ frames L, x.2.playoutTime + oneSecond < now) →
        ∃ b' L', run b (List.replicate (L.length + 1) (.decode now df)) =
            some (b', undecodedAddrs (frames L)) ∧ Layout b' L' ∧ ∀ x ∈ frames L', x.2.decoded := by
  obtain ⟨b, hs, L, e, g, hc⟩ := run_invariant (fun _ _ L _ => (frames L).Pairwise CompleteBefore)
    (fun _ b L _ op _ _ L' _ hc _ _ hL _ => by
      dsimp only at hc ⊢
      rw [show frames L' = _ from congrArg Prod.fst hL]
      exact completeBefore_absStep hc _ _ op)
    ops [] pbufInit [] [] good_pbufInit (by simp [frames]) hok
  refine ⟨b, hs, L, e, g.layout, fun now df hnow => ?_⟩
  obtain ⟨b', L', e', g', hd⟩ := run_replicate_decode now df _ b L g hc hnow
    (by simpa [frames] using pendingPasses_le hc)
  exact ⟨b', L', e', g'.layout, hd⟩

theorem run_decode_drains_twoFrames :
    ∃ b hs L, run pbufInit [.insert ⟨100, 0, false, 0, []⟩ 0 0 true,
      .insert ⟨200, 1, false, 0, []⟩ 1000 0 true] = some (b, hs) ∧ Layout b L ∧
      ∀ now df, (∀ x ∈ frames L, x.2.playoutTime + oneSecond < now) →
        ∃ b' L', run b (List.replicate (L.length + 1) (.decode now df)) =
            some (b', undecodedAddrs (frames L)) ∧ Layout b' L' ∧ ∀ x ∈ frames L', x.2.decoded :=
  run_decode_drains _ (by simp [Op.MallocOk])

end UltraGrid.Rtp
