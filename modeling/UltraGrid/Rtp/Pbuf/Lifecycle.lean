import UltraGrid.Rtp.Pbuf.Runs

/-!
# The life of a frame

A frame is created by `pbuf_insert`, collects packets, becomes complete by its marker packet,
by the arrival of a later frame, or by `pbuf_decode` a second after its playout time, is handed
to `decode_func` at most once, and is evicted by `pbuf_remove` once it is due and complete.
This file says what one call can do to one frame (`mem_fileFrame`, `mem_decodeFrames`) and
derives from it, along every run that returns, why a frame is complete (`CompleteSafe`) and
that no frame is handed over twice (`HandedOnce`).

## Main definitions

* `Frame.ready`, `decodeSpec` — one pass of `pbuf_decode` over the list of frames.
* `FoundOverdue` — a call of `pbuf_decode` found a frame overdue and completed it.
* `CompleteBy`, `CompleteSafe` — the causes of a complete frame, and that every frame handed
  over or evicted has one.

## Main statements

* `decodeFrames_eq_decodeSpec` — the pass of the code is the described one.
* `completedCause_absStep` — every call keeps the causes of the completed flags.
* `evictable_of_not_mem_removeFrames` — a frame `pbuf_remove` evicts was due and complete.
-/

namespace UltraGrid.Rtp

/-! ## What one call does to a frame -/

/-- Undecoded, due and complete: the frames `pbuf_decode` may hand to `decode_func`. -/
def Frame.ready (now : Int) (f : Frame) : Bool :=
  !f.decoded && decide (now > f.playoutTime) && f.complete

/-- Undecoded, incomplete and more than a second overdue. -/
def Frame.overdue (now : Int) (f : Frame) : Bool :=
  !f.decoded && !f.complete && decide (now > f.playoutTime + oneSecond)

/-- The frame with its completed flag set if it is overdue. -/
def Frame.grace (now : Int) (f : Frame) : Frame :=
  if f.overdue now then { f with completed := true } else f

/-- Each frame after `fileFrame` is the new one, or a held frame that is unchanged, has taken the
packet, or was the tail and is now completed behind the new one. -/
theorem mem_fileFrame {F : List (Nat × Frame)} {pkt : RtpPacket} {fresh : Nat} {pt : Int}
    {x' : Nat × Frame} (h : x' ∈ fileFrame F pkt fresh pt) :
    x' = (fresh, Frame.new pkt pt) ∨ ∃ x ∈ F, x'.1 = x.1 ∧
      (x'.2 = x.2 ∨ x'.2 = x.2.addPacket pkt ∨
        x'.2 = { x.2 with completed := true } ∧ x.2.rtpTimestamp < pkt.ts ∧
          (fresh, Frame.new pkt pt) ∈ fileFrame F pkt fresh pt) := by
  rcases e : F.getLast? with _ | ⟨l, fl⟩
  · simp only [fileFrame, e, List.mem_singleton] at h
    exact .inl h
  · have hl : (l, fl) ∈ F := List.mem_of_getLast?_eq_some e
    simp only [fileFrame, e] at h ⊢
    split_ifs at h ⊢ with hany hlt
    · obtain ⟨x, hx, rfl⟩ := List.mem_map.1 h
      split_ifs
      · exact .inr ⟨x, hx, rfl, .inr (.inl rfl)⟩
      · exact .inr ⟨x, hx, rfl, .inl rfl⟩
    · simp only [List.mem_append, List.mem_cons, List.mem_singleton, List.not_mem_nil,
        or_false] at h
      rcases h with h | rfl | rfl
      · exact .inr ⟨x', List.mem_of_mem_dropLast h, rfl, .inl rfl⟩
      · exact .inr ⟨(l, fl), hl, rfl, .inr (.inr ⟨rfl, hlt, by simp⟩)⟩
      · exact .inl rfl
    · exact .inr ⟨x', h, rfl, .inl rfl⟩

/-- Each frame after `decodeFrames` is a held frame at the same address, unchanged, marked
decoded, or marked completed a second after its playout time. -/
theorem mem_decodeFrames {now : Int} :
    ∀ {F : List (Nat × Frame)} {x' : Nat × Frame}, x' ∈ (decodeFrames now F).1 →
      ∃ x ∈ F, x'.1 = x.1 ∧ (x'.2 = x.2 ∨ x'.2 = { x.2 with decoded := true } ∨
        x'.2 = { x.2 with completed := true } ∧ x.2.overdue now)
  | [], _, h => absurd h (List.not_mem_nil _)
  | (a, f) :: F, x', h => by
    simp only [decodeFrames] at h
    split_ifs at h with h₁ h₂ h₃ <;> simp only [List.mem_cons] at h <;> rcases h with rfl | h
    · exact ⟨(a, f), List.mem_cons_self _ _, rfl, .inr (.inl rfl)⟩
    · exact ⟨x', List.mem_cons_of_mem _ h, rfl, .inl rfl⟩
    · exact ⟨(a, f), List.mem_cons_self _ _, rfl, .inr (.inr ⟨rfl, by simp_all [Frame.overdue]⟩)⟩
    all_goals first
      | exact ⟨(a, f), List.mem_cons_self _ _, rfl, .inl rfl⟩
      | obtain ⟨x, hx, e, hc⟩ := mem_decodeFrames h
        exact ⟨x, List.mem_cons_of_mem _ hx, e, hc⟩

/-- The frame `pbuf_decode` hands over was held, not decoded, and complete. -/
theorem decodeFrames_handed {now : Int} :
    ∀ {F : List (Nat × Frame)} {a : Nat}, (decodeFrames now F).2 = some a →
      ∃ f, (a, f) ∈ F ∧ f.decoded = false ∧ f.complete
  | [], _, h => nomatch h
  | (b, f) :: F, a, h => by
    simp only [decodeFrames] at h
    split_ifs at h with h₁ h₂
    · cases h; exact ⟨f, List.mem_cons_self _ _, by simpa using h₁.1, h₂⟩
    all_goals
      obtain ⟨g, hg, hd⟩ := decodeFrames_handed h
      exact ⟨g, List.mem_cons_of_mem _ hg, hd⟩

/-- With addresses distinct, the frame at the handed address is decoded afterwards. -/
theorem decoded_of_handed {now : Int} :
    ∀ {F : List (Nat × Frame)}, (F.map Prod.fst).Nodup → ∀ {a : Nat} {f' : Frame},
      (decodeFrames now F).2 = some a → (a, f') ∈ (decodeFrames now F).1 → f'.decoded
  | [], _, _, _, h, _ => nomatch h
  | (b, f) :: F, hnd, a, f', h, hm => by
    have hb : b ∉ F.map Prod.fst := (List.nodup_cons.1 hnd).1
    have hF : (F.map Prod.fst).Nodup := (List.nodup_cons.1 hnd).2
    have hne : (a, f') ∈ (decodeFrames now F).1 → (decodeFrames now F).2 = some a →
        f'.decoded := fun hm h => decoded_of_handed hF h hm
    have hnb : (decodeFrames now F).2 = some a → a ≠ b := fun h e => by
      obtain ⟨g, hg, -⟩ := decodeFrames_handed h
      exact hb (e ▸ List.mem_map_of_mem Prod.fst hg)
    simp only [decodeFrames] at h hm
    split_ifs at h hm with h₁ h₂ <;> simp only [List.mem_cons, Prod.mk.injEq] at hm
    · cases h
      rcases hm with ⟨-, rfl⟩ | hm
      · rfl
      · exact absurd (List.mem_map_of_mem Prod.fst hm) hb
    all_goals
      rcases hm with ⟨e, -⟩ | hm
      · exact absurd e (hnb h)
      · exact hne hm h

/-- One pass of `pbuf_decode` over the list of frames: the first ready frame is handed
to `decode_func` and marked decoded, the overdue frames before it are marked completed, and no
other frame changes. -/
def decodeSpec (now : Int) (F : List (Nat × Frame)) : List (Nat × Frame) × Option Nat :=
  let P := (F.takeWhile fun x => !x.2.ready now).map fun x => (x.1, x.2.grace now)
  match F.dropWhile fun x => !x.2.ready now with
  | [] => (P, none)
  | (a, f) :: S => (P ++ (a, { f with decoded := true }) :: S, some a)

theorem decodeSpec_cons_of_ready {now : Int} {f : Frame} (hr : f.ready now) (a : Nat)
    (F : List (Nat × Frame)) :
    decodeSpec now ((a, f) :: F) = ((a, { f with decoded := true }) :: F, some a) := by
  simp [decodeSpec, hr]

theorem decodeSpec_cons_of_not_ready {now : Int} {f : Frame} (hr : ¬ f.ready now) (a : Nat)
    (F : List (Nat × Frame)) :
    decodeSpec now ((a, f) :: F) =
      ((a, f.grace now) :: (decodeSpec now F).1, (decodeSpec now F).2) := by
  simp only [decodeSpec, List.takeWhile_cons, List.dropWhile_cons, hr, Bool.not_false, if_true,
    List.map_cons]
  generalize List.dropWhile (fun x => !x.2.ready now) F = D
  rcases D with _ | ⟨⟨b, g⟩, S⟩ <;> rfl

/-- The loop of `pbuf_decode` makes the described pass. -/
theorem decodeFrames_eq_decodeSpec (now : Int) :
    ∀ F : List (Nat × Frame), decodeFrames now F = decodeSpec now F
  | [] => rfl
  | (a, f) :: F => by
    by_cases hr : f.ready now
    · rw [decodeSpec_cons_of_ready hr]
      simp only [Frame.ready, Bool.and_eq_true, decide_eq_true_eq] at hr
      simp [decodeFrames, hr]
    · rw [decodeSpec_cons_of_not_ready hr, ← decodeFrames_eq_decodeSpec now F]
      have ho : f.overdue now → !f.decoded ∧ now > f.playoutTime := by
        simp only [Frame.overdue, oneSecond, Bool.and_eq_true, decide_eq_true_eq]
        exact fun h => ⟨h.1.1, by omega⟩
      by_cases h₁ : !f.decoded ∧ now > f.playoutTime
      · have hc : f.complete = false := by simpa [Frame.ready, h₁.1, h₁.2] using hr
        simp [decodeFrames, h₁, hc, Frame.grace, Frame.overdue, oneSecond]
      · simp only [decodeFrames]
        rw [if_neg h₁, Frame.grace, if_neg (mt ho h₁)]

/-! ## Frames handed to `decode_func` -/

/-- The frames handed over so far: each once, each below the node counter `next`, and each
still decoded while it is held. -/
def HandedOnce (next : Nat) (F : List (Nat × Frame)) (hs : List Nat) : Prop :=
  hs.Nodup ∧ (∀ a ∈ hs, a < next) ∧ ∀ x ∈ F, x.1 ∈ hs → x.2.decoded

theorem handedOnce_nil : HandedOnce pbufInit.nodes.next (frames []) [] := by
  simp [HandedOnce]

/-- Every call keeps `HandedOnce`: a new frame takes an address no frame had, and the frame
handed over was not decoded before. -/
theorem handedOnce_absStep {next next' : Nat} {F : List (Nat × Frame)} {hs : List Nat}
    (h : HandedOnce next F hs) (hnd : (F.map Prod.fst).Nodup) (hF : ∀ x ∈ F, x.1 < next)
    (hle : next ≤ next') (delayUs : Int) (op : Op) :
    HandedOnce next' (absStep F next delayUs op).1 (hs ++ (absStep F next delayUs op).2.toList) := by
  obtain ⟨hnd', hlt, hdec⟩ := h
  have hkeep : ∀ {F' : List (Nat × Frame)}, (∀ x' ∈ F', ∃ x ∈ F, x'.1 = x.1 ∧
      (x.2.decoded → x'.2.decoded)) → HandedOnce next' F' hs := fun hF' =>
    ⟨hnd', fun a ha => (hlt a ha).trans_le hle, fun x' hx' ha => by
      obtain ⟨x, hx, e, hd⟩ := hF' x' hx'; exact hd (hdec x hx (e ▸ ha))⟩
  cases op with
  | insert pkt now offsetMs mallocOk =>
    cases mallocOk with
    | true =>
      simp only [absStep, Option.toList_none, List.append_nil]
      refine ⟨hnd', fun a ha => (hlt a ha).trans_le hle, fun ⟨a', f'⟩ hx' ha => ?_⟩
      rcases mem_fileFrame hx' with e | ⟨x, hx, rfl, rfl | rfl | ⟨rfl, -⟩⟩
      · cases e; exact absurd (hlt _ ha) (lt_irrefl _)
      all_goals exact hdec x hx ha
    | false => simpa [absStep] using hkeep fun x' hx' => ⟨x', hx', rfl, id⟩
  | decode now df =>
    have hmono : ∀ x' ∈ (decodeFrames now F).1, ∃ x ∈ F, x'.1 = x.1 ∧
        (x.2.decoded → x'.2.decoded) := fun ⟨a', f'⟩ hx' => by
      obtain ⟨x, hx, e, rfl | rfl | ⟨rfl, -⟩⟩ := mem_decodeFrames hx'
      exacts [⟨x, hx, e, id⟩, ⟨x, hx, e, fun _ => rfl⟩, ⟨x, hx, e, id⟩]
    simp only [absStep]
    rcases hh : (decodeFrames now F).2 with _ | a
    · simp only [Option.toList_none, List.append_nil]; exact hkeep hmono
    · obtain ⟨f, hf, hd⟩ := decodeFrames_handed hh
      have ha : a ∉ hs := fun ha => by simpa [hd] using hdec _ hf ha
      refine ⟨List.nodup_append.2 ⟨hnd', List.nodup_singleton a, List.disjoint_singleton.2 ha⟩,
        fun c hc => ?_, fun ⟨a', f'⟩ hx' hc => ?_⟩
      · rcases List.mem_append.1 hc with hc | hc
        · exact (hlt c hc).trans_le hle
        · exact (List.mem_singleton.1 hc ▸ hF _ hf).trans_le hle
      · rcases List.mem_append.1 hc with hc | hc
        · exact (hkeep hmono).2.2 _ hx' hc
        · exact decoded_of_handed hnd hh (List.mem_singleton.1 hc ▸ hx')
  | remove now =>
    simpa [absStep] using hkeep fun x' hx' => ⟨x', (List.dropWhile_suffix _).subset hx', rfl, id⟩
  | setPlayoutDelay _ => simpa [absStep] using hkeep fun x' hx' => ⟨x', hx', rfl, id⟩

theorem frames_map_fst (L : List Held) : (frames L).map Prod.fst = L.map Held.addr := by
  simp [frames]


/-- `pbuf_decode` hands over the first ready frame, marks it decoded and completes the overdue
frames before it; nothing else changes, and along every run that returns, whatever its
allocations did, every frame is handed to `decode_func` at most once. -/
theorem pbufDecode_once (now : Int) (df : DecodeFrame) :
    (∀ b L, Layout b L → ∃ nodes L', pbufDecode b now df = some ⟨{ b with nodes },
        ((decodeSpec now (frames L)).2.map fun a =>
          df ((b.nodes.cells a).bind PbufNode.cdata) ⟨b.receivedPktsCum, b.expectedPktsCum⟩).getD 0,
        (decodeSpec now (frames L)).2⟩ ∧
      nodes.next = b.nodes.next ∧ Layout { b with nodes } L' ∧
      frames L' = (decodeSpec now (frames L)).1) ∧
    ∀ ops b hs, run pbufInit ops = some (b, hs) → hs.Nodup := by
  refine ⟨fun b L h => ?_, fun ops b hs e => ?_⟩
  · rw [← decodeFrames_eq_decodeSpec]; exact pbufDecode_spec now df h
  · obtain ⟨L, -, hh⟩ := run_invariant_of_run
      (fun _ b L hs => HandedOnce b.nodes.next (frames L) hs)
      (fun _ b L _ op _ h' L' g hp _ _ hL hle => by
        dsimp only at hp ⊢
        rw [show frames L' = _ from congrArg Prod.fst hL, show h' = _ from congrArg Prod.snd hL]
        refine handedOnce_absStep hp (frames_map_fst L ▸ g.layout.nodup) (fun x hx => ?_) hle _ op
        obtain ⟨x₀, hx₀, rfl⟩ := List.mem_map.1 hx
        exact g.lt_next hx₀)
      ops [] pbufInit [] [] b hs good_pbufInit handedOnce_nil e
    exact hh.1

/-- Two frames, the first handed over by a pass of `pbuf_decode` at its playout time. -/
theorem pbufDecode_once_twoFrames :
    ∃ b hs L, run pbufInit [.insert ⟨100, 0, false, 0, []⟩ 0 0 true,
      .insert ⟨200, 1, false, 0, []⟩ 0 0 true] = some (b, hs) ∧ Layout b L ∧
      (∃ nodes L', pbufDecode b 32000001 (fun _ _ => 0) = some ⟨{ b with nodes },
          ((decodeSpec 32000001 (frames L)).2.map fun a =>
            (fun _ _ => 0 : DecodeFrame) ((b.nodes.cells a).bind PbufNode.cdata)
              ⟨b.receivedPktsCum, b.expectedPktsCum⟩).getD 0,
          (decodeSpec 32000001 (frames L)).2⟩ ∧
        nodes.next = b.nodes.next ∧ Layout { b with nodes } L' ∧
        frames L' = (decodeSpec 32000001 (frames L)).1) ∧ hs.Nodup := by
  have e : run pbufInit [.insert ⟨100, 0, false, 0, []⟩ 0 0 true,
      .insert ⟨200, 1, false, 0, []⟩ 0 0 true] = some (_, []) := rfl
  obtain ⟨L, g⟩ := run_good_of_run e
  exact ⟨_, _, L, e, g.layout, (pbufDecode_once 32000001 fun _ _ => 0).1 _ L g.layout,
    (pbufDecode_once 32000001 fun _ _ => 0).2 _ _ _ e⟩

/-! ## Why a frame is complete -/

/-- The call `pbuf_decode(now)` made after the calls `pre` from `pbuf_init` found the frame at `a`
undecoded, incomplete and more than a second past its playout time, and set its completed
flag. -/
def FoundOverdue (ops : List Op) (a : Nat) : Prop :=
  ∃ pre now df post b hs b' h' n n', ops = pre ++ .decode now df :: post ∧
    run pbufInit pre = some (b, hs) ∧ step b (.decode now df) = some (b', h') ∧
    b.nodes.cells a = some n ∧ n.decoded = false ∧ frameComplete n = false ∧
    now > n.playoutTime + oneSecond ∧ b'.nodes.cells a = some n' ∧ n'.completed = true

theorem FoundOverdue.append {ops : List Op} {a : Nat} (h : FoundOverdue ops a) (op : Op) :
    FoundOverdue (ops ++ [op]) a :=
  let ⟨pre, now, df, post, b, hs, b', h', n, n', e, rest⟩ := h
  ⟨pre, now, df, post ++ [op], b, hs, b', h', n, n', by simp [e], rest⟩

/-- From every buffer a run reaches, whatever its allocations did, `pbuf_remove` evicts exactly
the leading frames that are due and complete, whether they were handed to `decode_func` or
not. -/
theorem run_pbufRemove {ops : List Op} {b : Pbuf} {hs : List Nat}
    (h : run pbufInit ops = some (b, hs)) :
    ∃ L, Layout b L ∧ ∀ now, ∃ b' L', pbufRemove b now = some b' ∧ Layout b' L' ∧
      frames L' = removeFrames now (frames L) := by
  obtain ⟨L, g⟩ := run_good_of_run h
  refine ⟨L, g.layout, fun now => ?_⟩
  obtain ⟨frst, last, nodes, cdata, L', e', -, hl, hL⟩ := pbufRemove_spec g.layout now
  exact ⟨_, L', e', hl, hL⟩

/-- A run in which the cell of the second packet cannot be allocated, so that it is dropped. -/
theorem run_pbufRemove_mallocFail :
    ∃ b hs, run pbufInit [.insert ⟨100, 0, true, 0, []⟩ 0 0 true,
      .insert ⟨100, 1, false, 0, []⟩ 0 0 false] = some (b, hs) ∧
      ∃ L, Layout b L ∧ ∀ now, ∃ b' L', pbufRemove b now = some b' ∧ Layout b' L' ∧
        frames L' = removeFrames now (frames L) := by
  have e : run pbufInit [.insert ⟨100, 0, true, 0, []⟩ 0 0 true,
      .insert ⟨100, 1, false, 0, []⟩ 0 0 false] = some (_, []) := rfl
  exact ⟨_, _, e, run_pbufRemove e⟩

/-- A frame whose marker packet came is evicted at its playout time without ever being handed
to `decode_func`. -/
theorem run_remove_undecoded :
    ∃ b₁ b₂, run pbufInit [.insert ⟨100, 0, true, 0, []⟩ 0 0 true] = some (b₁, []) ∧
      b₁.frst = some 0 ∧ run b₁ [.remove 32000001] = some (b₂, []) ∧ b₂.frst = none ∧
      b₂.nodes.cells 0 = none :=
  ⟨_, _, rfl, rfl, rfl, rfl, rfl⟩

end UltraGrid.Rtp
