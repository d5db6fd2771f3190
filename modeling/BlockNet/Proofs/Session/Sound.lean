import BlockNet.Proofs.Session.Stage

/-! # What callers keep up

However the turns of callers fall, a run that is not finished and not registered has been asked to
stop, every run has one frame, and the frame says how far the run is. -/

namespace BlockNet

variable {α : Type}

/-! ## The session -/

namespace Session

/-- Every run that is not finished is registered, or it has been asked to stop. -/
structure Safe (s : Session α) : Prop where
  halted : ∀ k, s.stage? k ≠ some (true, true)
  flagged : ∀ k running, s.stage? k = some (running, false) →
    (∀ r, s.registered = some r → r.run ≠ k) → s.stopAsked k = true
  listed : ∀ r, s.registered = some r → r.run < s.runs.length

variable {s s' : Session α}

theorem Safe.steady (h : Safe s) (hs : Steady s s') : Safe s' := by
  refine ⟨fun k hk => h.halted k (hs.stage k ▸ hk), fun k running hk hother => ?_, fun r hr => ?_⟩
  · exact hs.asked k (h.flagged k running (hs.stage k ▸ hk) (hs.registered ▸ hother))
  · exact hs.length ▸ h.listed r (hs.registered ▸ hr)

/-- A run moves on, and if it is not finished now, it was not finished before. -/
theorem Safe.moved {run : Nat} {stage : Bool × Bool} (h : Safe s) (hs : Moved s s' run stage)
    (hstage : stage ≠ (true, true))
    (hbefore : stage.2 = false → ∃ running, s.stage? run = some (running, false)) : Safe s' := by
  refine ⟨fun k hk => ?_, fun k running hk hother => ?_, fun r hr => ?_⟩
  · by_cases hrun : run = k
    · subst hrun
      exact hstage (Option.some.inj (hs.stage.symm.trans hk))
    · exact h.halted k (hs.others k hrun ▸ hk)
  · by_cases hrun : run = k
    · subst hrun
      obtain ⟨running', hbefore⟩ :=
        hbefore (congrArg Prod.snd (Option.some.inj (hs.stage.symm.trans hk)))
      exact hs.asked run (h.flagged run running' hbefore (hs.registered ▸ hother))
    · exact hs.asked k (h.flagged k running (hs.others k hrun ▸ hk) (hs.registered ▸ hother))
  · exact hs.length ▸ h.listed r (hs.registered ▸ hr)

/-- A run is registered, and the one that was registered has been asked to stop. -/
theorem Safe.entered {caller run : Nat} {t : Trainer α} (h : Safe s)
    (hs : Entered s s' caller run t) (hfinished : t.finished = false) : Safe s' := by
  have hold : ∀ k stage, run ≠ k → s'.stage? k = some stage → k < s.runs.length := by
    intro k stage hrun hk
    have hlt := lt_length_of_stage? hk
    have hfresh := hs.fresh
    have hlength := hs.length
    omega
  refine ⟨fun k hk => ?_, fun k running hk hother => ?_, fun r hr => ?_⟩
  · by_cases hrun : run = k
    · subst hrun
      have hstage := congrArg Prod.snd (Option.some.inj (hs.stage.symm.trans hk))
      exact absurd (hfinished.symm.trans hstage) (by decide)
    · exact h.halted k (hs.others k (hold k _ hrun hk) ▸ hk)
  · have hrun : run ≠ k := hother _ hs.registered
    have hlt := hold k _ hrun hk
    have hbefore := hs.others k hlt ▸ hk
    -- the run that leaves the register is asked to stop now, any other one was asked before
    by_cases hlisted : ∃ r, s.registered = some r ∧ r.run = k
    · obtain ⟨r, hr, rfl⟩ := hlisted
      exact hs.stopped r hr hlt
    · exact hs.asked k hlt (h.flagged k running hbefore fun r hr hk => hlisted ⟨r, hr, hk⟩)
  · obtain rfl := Option.some.inj (hs.registered.symm.trans hr)
    have hfresh := hs.fresh
    have hlength := hs.length
    change run < s'.runs.length
    omega

/-- A finished run is taken off the register. -/
theorem Safe.unregister {run running} (h : Safe s) (hrun : s.stage? run = some (running, true)) :
    Safe (s.unregister run) := by
  have hruns := s.unregister_runs run
  refine ⟨fun k => ?_, fun k running hk hother => ?_, fun r hr => ?_⟩
  · rw [stage?_congr hruns]
    exact h.halted k
  · rw [stage?_congr hruns] at hk
    rw [stopAsked_congr hruns]
    refine h.flagged k running hk fun r hr hk' => ?_
    by_cases heq : r.run = run
    · rw [← heq, hk', hk] at hrun
      cases hrun
    · exact hother r ((s.unregister_registered run).mpr ⟨hr, heq⟩) hk'
  · rw [hruns]
    exact h.listed r ((s.unregister_registered run).mp hr).1

end Session

/-! ## A frame -/

/-- What a frame says of the session. -/
def Frame.Fits (s : Session α) (caller : Nat) : Frame α → Prop
  | knocking q | refused q _ | asked q _ =>
      q.trainer.running = false ∧ q.trainer.finished = false
  | evicting q active =>
      (q.trainer.running = false ∧ q.trainer.finished = false) ∧
        s.stage? active = some (false, true)
  | opened run => s.registered = some ⟨run, caller⟩ ∧ s.stage? run = some (false, false)
  | looping run _ _ | told run _ _ | failing run => s.stage? run = some (true, false)
  | completing run | closing run => s.stage? run = some (false, true)
  | reading | flagging _ => True

variable {s s' : Session α} {c : Nat} {f : Frame α}

theorem Frame.Fits.stage {k : Nat} (h : f.Fits s c) (hk : f.run? = some k) :
    ∃ stage, s.stage? k = some stage := by
  cases f with
  | opened run =>
      obtain rfl := Option.some.inj hk
      exact ⟨_, h.2⟩
  | looping run | told run | failing run | completing run | closing run =>
      obtain rfl := Option.some.inj hk
      exact ⟨_, h⟩
  | _ => cases hk

/-- A frame goes on to fit if its own run, or the finished one it waits for, has not moved on. -/
theorem Frame.Fits.mono (h : f.Fits s c)
    (hstage : ∀ k stage, f.run? = some k ∨ stage = (false, true) → s.stage? k = some stage →
      s'.stage? k = some stage)
    (hopened : ∀ k, f = .opened k → s'.registered = s.registered) : f.Fits s' c := by
  cases f with
  | knocking | refused | asked | reading | flagging => exact h
  | evicting q active => exact ⟨h.1, hstage _ _ (.inr rfl) h.2⟩
  | opened run => exact ⟨(hopened run rfl).trans h.1, hstage _ _ (.inl rfl) h.2⟩
  | looping run | told run | failing run | completing run | closing run =>
      exact hstage _ _ (.inl rfl) h

/-! ## The frames of all callers -/

namespace World

/-- The runs that a caller takes through their epochs. -/
def owned (stack : List (Frame α)) : List Nat := stack.filterMap Frame.run?

theorem mem_owned {stack : List (Frame α)} (hf : f ∈ stack) {k : Nat} (hk : f.run? = some k) :
    k ∈ owned stack := List.mem_filterMap.mpr ⟨f, hf, hk⟩

theorem owned_append (g : Option (Frame α)) (rest : List (Frame α)) :
    owned (g.toList ++ rest) = (g.bind Frame.run?).toList ++ owned rest := by
  cases g with
  | none => rfl
  | some g =>
      simp only [owned, Option.toList_some, List.singleton_append, List.filterMap_cons,
        Option.bind_some]
      cases g.run? <;> rfl

/-- Only who listens waits for other frames, and every run has one frame. -/
structure Tidy (frames : Nat → List (Frame α)) : Prop where
  under : ∀ c f rest, frames c = f :: rest → ∀ g ∈ rest, g.IsCallback
  nodup : ∀ c, (owned (frames c)).Nodup
  apart : ∀ c c', c ≠ c' → ∀ k ∈ owned (frames c), k ∉ owned (frames c')

variable {frames : Nat → List (Frame α)} {g : Option (Frame α)} {rest : List (Frame α)}

theorem Tidy.update (h : Tidy frames) {stack : List (Frame α)}
    (hunder : ∀ f rest, stack = f :: rest → ∀ g ∈ rest, g.IsCallback)
    (hnodup : (owned stack).Nodup)
    (hapart : ∀ c', c' ≠ c → ∀ k ∈ owned stack, k ∉ owned (frames c')) :
    Tidy (Function.update frames c stack) := by
  refine ⟨fun c' => ?_, fun c' => ?_, fun c' c'' hne => ?_⟩
  · by_cases hc : c' = c
    · subst hc
      rwa [Function.update_self]
    · rw [Function.update_of_ne hc]
      exact h.under c'
  · by_cases hc : c' = c
    · subst hc
      rwa [Function.update_self]
    · rw [Function.update_of_ne hc]
      exact h.nodup c'
  · by_cases hc : c' = c
    · subst hc
      rw [Function.update_self, Function.update_of_ne (Ne.symm hne)]
      exact hapart c'' (Ne.symm hne)
    · rw [Function.update_of_ne hc]
      by_cases hc' : c'' = c
      · subst hc'
        rw [Function.update_self]
        exact fun k hk hk' => hapart c' hc k hk' hk
      · rw [Function.update_of_ne hc']
        exact h.apart c' c'' hne

/-- A frame gives way to one with the same run, a new run, or none. -/
theorem Tidy.turn (h : Tidy frames) (hstack : frames c = f :: rest)
    (hrun : ∀ k, g.bind Frame.run? = some k → f.run? = some k ∨ ∀ c', k ∉ owned (frames c')) :
    Tidy (Function.update frames c (g.toList ++ rest)) := by
  have howned : owned (frames c) = f.run?.toList ++ owned rest :=
    hstack ▸ owned_append (some f) rest
  have hnodup := h.nodup c
  rw [howned] at hnodup
  have hrest : ∀ k ∈ owned rest, k ∈ owned (frames c) :=
    fun k hk => howned ▸ List.mem_append_right _ hk
  refine h.update ?_ ?_ ?_
  · intro f' rest' hcons g' hg'
    refine h.under c f rest hstack g' ?_
    cases g with
    | none =>
        rw [Option.toList_none, List.nil_append] at hcons
        exact hcons ▸ List.mem_cons_of_mem _ hg'
    | some g =>
        obtain ⟨-, rfl⟩ := List.cons.inj hcons
        exact hg'
  · rw [owned_append]
    cases hg : g.bind Frame.run? with
    | none => exact (List.nodup_append.mp hnodup).2.1
    | some k =>
        refine List.nodup_cons.mpr ⟨fun hk => ?_, (List.nodup_append.mp hnodup).2.1⟩
        obtain hf | hfresh := hrun k hg
        · rw [hf] at hnodup
          exact (List.nodup_cons.mp hnodup).1 hk
        · exact hfresh c (hrest k hk)
  · intro c' hc k hk
    rw [owned_append] at hk
    obtain hk | hk := List.mem_append.mp hk
    · obtain hf | hfresh := hrun k (Option.mem_toList.mp hk)
      · refine h.apart c c' (Ne.symm hc) k ?_
        rw [howned, hf]
        exact List.mem_cons_self
      · exact hfresh c'
    · exact h.apart c c' (Ne.symm hc) k (hrest k hk)

/-- A caller that is free calls. -/
theorem Tidy.call (h : Tidy frames) (hfree : Free (frames c)) (hrun : f.run? = none) :
    Tidy (Function.update frames c (f :: frames c)) := by
  have howned : owned (f :: frames c) = owned (frames c) := List.filterMap_cons_none hrun
  refine h.update ?_ (howned ▸ h.nodup c) fun c' hc => howned ▸ h.apart c c' (Ne.symm hc)
  intro f' rest hcons g hg
  obtain ⟨-, rfl⟩ := List.cons.inj hcons
  cases hstack : frames c with
  | nil =>
      rw [hstack] at hg
      cases hg
  | cons top below =>
      rw [hstack] at hg hfree
      obtain rfl | hg := List.mem_cons.mp hg
      · exact hfree _ rfl
      · exact h.under c top below hstack g hg

/-! ## The world -/

/-- What holds of a world whatever its callers do. -/
structure Sound (w : World α) : Prop where
  safe : w.session.Safe
  tidy : Tidy w.frames
  fits : ∀ c, ∀ f ∈ w.frames c, f.Fits w.session c

variable {w : World α}

theorem Sound.lt_length (hw : Sound w) {k : Nat} (hk : k ∈ owned (w.frames c)) :
    k < w.session.runs.length := by
  obtain ⟨f, hf, hrun⟩ := List.mem_filterMap.mp hk
  obtain ⟨stage, hstage⟩ := (hw.fits c f hf).stage hrun
  exact Session.lt_length_of_stage? hstage

/-- The top frame of a caller gives way to another one, and all other frames go on to fit. -/
theorem Sound.turn (hw : Sound w) (hstack : w.frames c = f :: rest) (hsafe : s'.Safe)
    (hrun : ∀ k, g.bind Frame.run? = some k → f.run? = some k ∨ w.session.runs.length ≤ k)
    (hnew : ∀ h ∈ g, h.Fits s' c)
    (hkept : ∀ c' (h : Frame α), h.Fits w.session c' → (c' = c → h.IsCallback) →
      (∀ k, h.run? = some k → f.run? ≠ some k) → h.Fits s' c') :
    Sound ⟨s', Function.update w.frames c (g.toList ++ rest)⟩ := by
  have howned : owned (w.frames c) = f.run?.toList ++ owned rest :=
    hstack ▸ owned_append (some f) rest
  refine ⟨hsafe, hw.tidy.turn hstack fun k hk => ?_, fun c' h hh => ?_⟩
  · refine (hrun k hk).imp_right fun hle c' hmem => ?_
    exact absurd (hw.lt_length hmem) (Nat.not_lt.mpr hle)
  · dsimp only at hh ⊢
    by_cases hc : c' = c
    · subst hc
      rw [Function.update_self] at hh
      obtain hh | hh := List.mem_append.mp hh
      · exact hnew h (Option.mem_toList.mp hh)
      · refine hkept c' h (hw.fits c' h (hstack ▸ List.mem_cons_of_mem _ hh))
          (fun _ => hw.tidy.under c' f rest hstack h hh) fun k hk hf => ?_
        have hnodup := hw.tidy.nodup c'
        rw [howned, hf] at hnodup
        exact (List.nodup_cons.mp hnodup).1 (mem_owned hh hk)
    · rw [Function.update_of_ne hc] at hh
      refine hkept c' h (hw.fits c' h hh) (fun h => absurd h hc) fun k hk hf => ?_
      refine hw.tidy.apart c c' (Ne.symm hc) k ?_ (mem_owned hh hk)
      rw [howned, hf]
      exact List.mem_cons_self

/-- A turn that moves no run on. -/
theorem Sound.steady (hw : Sound w) (hstack : w.frames c = f :: rest)
    (hs : Session.Steady w.session s')
    (hrun : ∀ k, g.bind Frame.run? = some k → f.run? = some k)
    (hnew : ∀ h ∈ g, h.Fits s' c) :
    Sound ⟨s', Function.update w.frames c (g.toList ++ rest)⟩ := by
  refine hw.turn hstack (hw.safe.steady hs) (fun k hk => .inl (hrun k hk)) hnew ?_
  exact fun c' h hfits _ _ =>
    hfits.mono (fun k stage _ hk => hs.stage k ▸ hk) fun _ _ => hs.registered

/-- A turn that moves the run of the frame on. -/
theorem Sound.moved (hw : Sound w) (hstack : w.frames c = f :: rest) {run : Nat}
    {stage : Bool × Bool} (hf : f.run? = some run) (hs : Session.Moved w.session s' run stage)
    (hsafe : s'.Safe)
    (hfinished : w.session.stage? run = some (false, true) → stage = (false, true))
    (hrun : ∀ k, g.bind Frame.run? = some k → k = run) (hnew : ∀ h ∈ g, h.Fits s' c) :
    Sound ⟨s', Function.update w.frames c (g.toList ++ rest)⟩ := by
  refine hw.turn hstack hsafe (fun k hk => .inl (hrun k hk ▸ hf)) hnew ?_
  intro c' h hfits _ hother
  refine hfits.mono (fun k stage' hk hstage => ?_) fun _ _ => hs.registered
  by_cases hk' : run = k
  · subst hk'
    obtain hk | rfl := hk
    · exact absurd hf (hother run hk)
    · exact hfinished hstage ▸ hs.stage
  · exact hs.others k hk' ▸ hstage

/-- A turn that takes a finished run off the register. -/
theorem Sound.unregister (hw : Sound w) (hstack : w.frames c = f :: rest) {run : Nat}
    (hfinished : w.session.stage? run = some (false, true))
    (hrun : ∀ k, g.bind Frame.run? = some k → f.run? = some k)
    (hnew : ∀ h ∈ g, h.Fits (w.session.unregister run) c) :
    Sound ⟨w.session.unregister run, Function.update w.frames c (g.toList ++ rest)⟩ := by
  have hruns := w.session.unregister_runs run
  refine hw.turn hstack (hw.safe.unregister hfinished) (fun k hk => .inl (hrun k hk)) hnew ?_
  intro c' h hfits _ _
  refine hfits.mono (fun k stage _ hk => Session.stage?_congr hruns k ▸ hk) fun k hk => ?_
  subst hk
  obtain ⟨hregistered, hstage⟩ := hfits
  rw [hregistered, Session.unregister_registered]
  refine ⟨hregistered, fun hk => ?_⟩
  subst hk
  rw [hfinished] at hstage
  cases hstage

/-- A turn that registers a run. -/
theorem Sound.entered (hw : Sound w) {rest : List (Frame α)} {q : Request α} {run : Nat}
    (hstack : w.frames c = .knocking q :: rest)
    (hs : Session.Entered w.session s' c run q.trainer) :
    Sound ⟨s', Function.update w.frames c ((some (.opened run)).toList ++ rest)⟩ := by
  obtain ⟨hrunning, hfinished⟩ : q.trainer.running = false ∧ q.trainer.finished = false :=
    hw.fits c (.knocking q) (hstack ▸ List.mem_cons_self)
  refine hw.turn hstack (hw.safe.entered hs hfinished) ?_ ?_ ?_
  · intro k hk
    obtain rfl := Option.some.inj hk
    exact .inr (Nat.le_of_eq hs.fresh.symm)
  · rintro h ⟨⟩
    refine ⟨hs.registered, ?_⟩
    rw [hs.stage, hrunning, hfinished]
  · intro c' h hfits hcallback _
    refine hfits.mono (fun k stage _ hk => ?_) fun k hk => ?_
    · exact (hs.others k (Session.lt_length_of_stage? hk)).trans hk
    · subst hk
      -- the caller of an opened run is not the one that registers, so it would not let it
      have hcaller := hs.own _ hfits.1
      exact absurd (hcallback hcaller) id

variable [Scalar α]

theorem Sound.start (hw : Sound w) {rest : List (Frame α)} {run : Nat}
    (hstack : w.frames c = .opened run :: rest) {result : Outcome Nat}
    (h : w.session.startRun run = (s', result)) (hnew : ∀ f ∈ g, f.run? = some run ∧
      (s'.stage? run = some (true, false) → f.Fits s' c)) :
    Sound ⟨s', Function.update w.frames c (g.toList ++ rest)⟩ := by
  obtain ⟨-, hwaiting⟩ := hw.fits c (.opened run) (hstack ▸ List.mem_cons_self)
  have hs : Session.Moved w.session s' run (true, false) := by
    have hmoved := Session.startRun_moved hwaiting
    rwa [h] at hmoved
  refine hw.moved hstack rfl hs (hw.safe.moved hs (by decide) fun _ => ⟨_, hwaiting⟩) ?_ ?_ ?_
  · rw [hwaiting]
    rintro ⟨⟩
  · intro k hk
    obtain ⟨f, hf, hk⟩ := Option.bind_eq_some_iff.mp hk
    exact Option.some.inj (hk.symm.trans (hnew f hf).1)
  · exact fun f hf => (hnew f hf).2 hs.stage

omit [Scalar α] in
theorem Sound.finish (hw : Sound w) {rest : List (Frame α)} {run : Nat}
    (hstack : w.frames c = f :: rest) (hf : f.run? = some run)
    (hrunning : w.session.stage? run = some (true, false)) (wentThrough : Bool)
    (hnew : ∀ f ∈ g, f.run? = some run ∧
      (∀ s : Session α, s.stage? run = some (false, true) → f.Fits s c)) :
    Sound ⟨w.session.finishRun run wentThrough, Function.update w.frames c (g.toList ++ rest)⟩ := by
  have hs := Session.finishRun_moved hrunning wentThrough
  refine hw.moved hstack hf hs (hw.safe.moved hs (by decide) (by rintro ⟨⟩)) (fun _ => rfl)
    ?_ ?_
  · intro k hk
    obtain ⟨f, hf, hk⟩ := Option.bind_eq_some_iff.mp hk
    exact Option.some.inj (hk.symm.trans (hnew f hf).1)
  · exact fun f hf => (hnew f hf).2 _ hs.stage

/-- Whatever a caller does, it keeps up. -/
theorem Sound.step {w' : World α} (hw : Sound w) (h : Step c w w') : Sound w' := by
  cases h with
  | @turn f rest s' g hstack h =>
      have hfits : f.Fits w.session c := hw.fits c f (hstack ▸ List.mem_cons_self)
      cases h with
      | enter h => exact hw.entered hstack ((Session.register_entered h).announce _)
      | refuse | knock | goOn | raise | completed | read =>
          refine hw.steady hstack (.refl _) (fun k hk => hk) ?_
          rintro h ⟨⟩
          exact hfits
      | ask =>
          refine hw.steady hstack (Session.pressRun_steady _ _) (fun k hk => hk) ?_
          rintro h ⟨⟩
          exact hfits
      | drained ht hfinished hrunning =>
          refine hw.steady hstack (.refl _) (fun k hk => hk) ?_
          rintro h ⟨⟩
          refine ⟨hfits, ?_⟩
          rw [Session.stage?, ht, Option.map_some, hfinished, hrunning]
      | evict =>
          refine hw.unregister hstack hfits.2 (fun k hk => hk) ?_
          rintro h ⟨⟩
          exact hfits.1
      | start h | startFault h =>
          refine hw.start hstack h ?_
          rintro h ⟨⟩
          exact ⟨rfl, id⟩
      | @epoch run _ epoch _ _ _ h | @epochFault run _ epoch _ _ _ h =>
          have hs := w.session.recordEpoch_steady run epoch
          rw [h] at hs
          refine hw.steady hstack hs (fun k hk => hk) ?_
          rintro h ⟨⟩
          exact (hs.stage run).trans hfits
      | finish h =>
          refine hw.finish hstack rfl hfits true ?_
          rintro h ⟨⟩
          exact ⟨rfl, fun _ => id⟩
      | fail =>
          refine hw.finish hstack rfl hfits false ?_
          rintro h ⟨⟩
          exact ⟨rfl, fun _ => id⟩
      | close =>
          refine hw.unregister hstack hfits (by rintro k ⟨⟩) ?_
          rintro h ⟨⟩
      | idle h =>
          refine hw.steady hstack (.refl _) (by rintro k ⟨⟩) ?_
          rintro h ⟨⟩
      | flag =>
          refine hw.steady hstack (Session.stopRun_steady _ _) (by rintro k ⟨⟩) ?_
          rintro h ⟨⟩
  | @call f hfree h =>
      have hcall : f.run? = none ∧ f.Fits w.session c := by
        cases h with
        | stop => exact ⟨rfl, trivial⟩
        | train pausing hready hmodel hdataset h =>
            obtain ⟨_, -, -, -, hrunning, hfinished⟩ := Trainer.build_eq_ok h
            exact ⟨rfl, hrunning, hfinished⟩
      refine ⟨hw.safe, hw.tidy.call hfree hcall.1, fun c' g hg => ?_⟩
      dsimp only at hg ⊢
      by_cases hc : c' = c
      · subst hc
        rw [Function.update_self] at hg
        obtain rfl | hg := List.mem_cons.mp hg
        · exact hcall.2
        · exact hw.fits c' g hg
      · rw [Function.update_of_ne hc] at hg
        exact hw.fits c' g hg
  | act hfree hruns hregistered =>
      have hs := Session.Steady.of_runs hruns hregistered
      refine ⟨hw.safe.steady hs, hw.tidy, fun c' g hg => (hw.fits c' g hg).mono ?_ ?_⟩
      · exact fun k stage _ hk => hs.stage k ▸ hk
      · exact fun _ _ => hregistered

omit [Scalar α] in
theorem sound_fresh (catalog : Catalog) (seed : Value) :
    Sound (fresh (α := α) catalog seed) := by
  refine ⟨⟨fun _ h => ?_, fun _ _ h => ?_, fun _ h => ?_⟩,
    ⟨fun _ _ _ h => ?_, fun _ => List.nodup_nil, fun _ _ _ _ h => ?_⟩, fun _ _ h => ?_⟩
  all_goals cases h

/-- Every world that callers come to is sound. -/
theorem Reachable.sound {catalog : Catalog} {seed : Value} (h : Reachable catalog seed w) :
    Sound w := by
  induction h with
  | refl => exact sound_fresh catalog seed
  | tail _ hstep ih =>
      obtain ⟨c, hstep⟩ := hstep
      exact ih.step hstep

end World

end BlockNet
