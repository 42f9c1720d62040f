import Meshezia.System.Enrolment

/-!
# Agents that do not get in

A registration that the server has taken may get lost: the agent does not hear of it, or is
killed before the id is in its file.  Its name is taken then, and it has no id to update.

    OnTheWay env boot s   the agent has not registered yet, or has the id it has got
    Stranded env boot s   its name is taken, by a peer whose id it does not have

When others leave the name alone, a run ends in the one or the other, by whether a registration was
lost (`onTheWay_or_stranded`), and a boot that is answered gets through if and only if none was
(`gets_through_iff`).  Whatever others do, an agent whose peer has been removed, by a request or
by the reaper, does not come back (`removed_for_good`): it has an id, which no peer has.
-/

namespace Meshezia

/-! ## Registrations that get lost -/

/-- The peer has the name that the agent registers with. -/
def NameTaken (env : Api.Env) (boot : BootConfig) (s : Enrolment) (id : PeerId) : Prop :=
  Api.Named (s.tables env) boot.args.networkId boot.args.name id

/-- A request of others neither gives the name of the agent to a peer nor takes it from one. -/
def LeavesName (env : Api.Env) (boot : BootConfig) (s : Enrolment) : EnrolEvent → Prop
  | .request e => ∀ id, NameTaken env boot (s.ask e) id ↔ NameTaken env boot s id
  | _ => True

/-- A registration is taken but the agent does not hear of it, or is killed before the id is in
its file. -/
def LosesRegistration (env : Api.Env) (boot : BootConfig) (s : Enrolment) : EnrolEvent → Prop
  | .enrol publicIp .unheard now => ∃ keys, s.stage = .keyed keys ∧ s.disk.loadPeerId = none ∧
      (Api.handle env (s.tables env) now (boot.register publicIp keys.pubkey)).2.status = 201
  | .save true | .stop => s.stage.unsaved? ≠ none
  | _ => False

/-- The name of the agent is taken, by a peer whose id it does not have. -/
structure Stranded (env : Api.Env) (boot : BootConfig) (s : Enrolment) : Prop where
  unfiled : s.disk.loadPeerId = none
  noneUnsaved : s.stage.unsaved? = none
  taken : ∃ id, NameTaken env boot s id

/-- The agent has not registered yet, or it has the id it has got, in memory or in its file. -/
inductive OnTheWay (env : Api.Env) (boot : BootConfig) (s : Enrolment) : Prop where
  | new : s.disk.loadPeerId = none → s.stage.unsaved? = none → (∀ id, ¬ NameTaken env boot s id) →
      OnTheWay env boot s
  | unsaved (id : PeerId) : s.disk.loadPeerId = none → s.stage.unsaved? = some id →
      NameTaken env boot s id → OnTheWay env boot s
  | filed (id : PeerId) : s.disk.loadPeerId = some id → s.stage.unsaved? = none →
      NameTaken env boot s id → OnTheWay env boot s

section
variable {env : Api.Env} {boot : BootConfig} {s : Enrolment} {e : EnrolEvent} {keys : Keypair}
  {publicIp : JsString} {now : Api.Draws}

theorem nameTaken_update (s : Enrolment) (id p : PeerId) :
    NameTaken env boot (s.ask (.serve (boot.update id publicIp keys.pubkey) now)) p ↔
      NameTaken env boot s p := by
  unfold NameTaken
  rw [tables_ask_serve]
  exact Api.named_patchPeer env (s.tables env) now boot.authorization id _

/-- A registration that is taken takes a name that nobody has. -/
theorem nameTaken_taken {row : Api.PeerRecord} {t' : Api.Tables}
    (hok : (s.tables env).insertPeer now.id row = .ok t')
    (hnet : row.networkId = boot.args.networkId) (hname : row.name = boot.args.name) :
    (∀ id, ¬ NameTaken env boot s id) ∧
      Api.Named t' boot.args.networkId boot.args.name now.id := by
  obtain ⟨-, hfree, -⟩ := Api.insertPeer_iff.mp ⟨_, hok⟩
  rw [hnet, hname] at hfree
  exact ⟨hfree, (Api.named_insertPeer hok).mpr (Or.inl ⟨rfl, hnet, hname⟩)⟩

/-- A stranded agent stays so. -/
theorem Stranded.step (h : Stranded env boot s) (hinv : EnrolInv env boot s)
    (hleaves : LeavesName env boot s e) : Stranded env boot (enrolStep env boot s e) := by
  obtain ⟨hnone, hunsaved, id, hid⟩ := h
  have hcase := enrolCase_enrolStep env boot s e
  generalize enrolStep env boot s e = s' at hcase
  cases hcase with
  | request x => exact ⟨hnone, hunsaved, id, (hleaves id).mpr hid⟩
  | @boot genkey cut disk result hoff hkeys =>
    have hstate := (getOrCreateKeypair_spec hinv.files hkeys).2.1
    refine ⟨?_, by cases result <;> rfl, id, hid⟩
    unfold Disk.loadPeerId at hnone ⊢
    rw [hstate]
    exact hnone
  | @enrol publicIp delivery now keys _ hstage henrol =>
    cases henrol with
    | unsent => exact ⟨hnone, rfl, id, hid⟩
    | refused _ _ hsame =>
      refine ⟨hnone, rfl, id, ?_⟩
      unfold NameTaken at hid ⊢
      rw [← hsame] at hid
      exact hid
    | taken row _ _ hok hnet hname => exact absurd hid ((nameTaken_taken hok hnet hname).1 id)
    | updated p hfiled =>
      rw [hnone] at hfiled
      cases hfiled
  | cut hstage =>
    rw [hstage] at hunsaved
    cases hunsaved
  | saved hstage =>
    rw [hstage] at hunsaved
    cases hunsaved
  | stop => exact ⟨hnone, rfl, id, hid⟩
  | _ => exact ⟨hnone, hunsaved, id, hid⟩

/-- An agent that loses its registration is stranded. -/
theorem stranded_of_loses (h : OnTheWay env boot s) (hloses : LosesRegistration env boot s e) :
    Stranded env boot (enrolStep env boot s e) := by
  -- killed with an id that is not filed
  have hkilled : ∀ disk : Disk, s.stage.unsaved? ≠ none → disk.loadPeerId = none →
      Stranded env boot { s with disk, stage := .off } := by
    intro disk hne hnone
    cases h with
    | new _ hunsaved => exact absurd hunsaved hne
    | unsaved id _ _ hid => exact ⟨hnone, rfl, id, hid⟩
    | filed _ _ hunsaved => exact absurd hunsaved hne
  have hfiled : s.stage.unsaved? ≠ none → s.disk.loadPeerId = none := by
    intro hne
    cases h with
    | new hnone => exact hnone
    | unsaved _ hnone => exact hnone
    | filed _ _ hunsaved => exact absurd hunsaved hne
  have hcase := enrolCase_enrolStep env boot s e
  generalize enrolStep env boot s e = s' at hcase
  cases hcase with
  | @enrol publicIp delivery now keys _ hstage henrol =>
    cases delivery with
    | answered => exact hloses.elim
    | lost => exact hloses.elim
    | unheard =>
      obtain ⟨keys', hstage', hnone, h201⟩ := hloses
      rw [hstage] at hstage'
      cases hstage'
      cases henrol with
      | unsent hlost => cases hlost
      | refused _ _ _ hstatus =>
        rw [h201] at hstatus
        exact absurd hstatus (by decide)
      | taken row _ _ hok hnet hname => exact ⟨hnone, rfl, now.id, (nameTaken_taken hok hnet hname).2⟩
      | updated p hfiled =>
        rw [hnone] at hfiled
        cases hfiled
  | enrolIdle publicIp delivery now hstage =>
    cases delivery with
    | answered => exact hloses.elim
    | lost => exact hloses.elim
    | unheard =>
      obtain ⟨keys, hkeyed, -⟩ := hloses
      exact absurd hkeyed (hstage keys)
  | cut hstage => exact hkilled _ (by rw [hstage]; exact fun hne => by cases hne) rfl
  | saved => exact hloses.elim
  | saveIdle cut hstage =>
    cases cut with
    | false => exact hloses.elim
    | true =>
      have hne : s.stage.unsaved? ≠ none := hloses
      cases hs : s.stage with
      | registered keys id => exact absurd hs (hstage keys id)
      | _ =>
        rw [hs] at hne
        exact absurd rfl hne
  | stop => exact hkilled s.disk hloses (hfiled hloses)
  | request => exact hloses.elim
  | boot => exact hloses.elim
  | bootIdle => exact hloses.elim

/-- One that does not stays on the way. -/
theorem OnTheWay.step (h : OnTheWay env boot s) (hinv : EnrolInv env boot s)
    (hleaves : LeavesName env boot s e) (hkept : ¬ LosesRegistration env boot s e)
    (hfresh : FreshIds (enrolStep env boot s e)) : OnTheWay env boot (enrolStep env boot s e) := by
  -- a state with the same name and file, and no id that is unsaved
  have hsame : ∀ s' : Enrolment, s.stage.unsaved? = none →
      s'.disk.loadPeerId = s.disk.loadPeerId → s'.stage.unsaved? = none →
      (∀ id, NameTaken env boot s' id ↔ NameTaken env boot s id) → OnTheWay env boot s' := by
    intro s' hbefore hdisk hunsaved hnames
    cases h with
    | new hnone _ hfree => exact .new (hdisk.trans hnone) hunsaved fun id hid => hfree id ((hnames id).mp hid)
    | unsaved id _ hsome _ =>
      rw [hbefore] at hsome
      cases hsome
    | filed id hfiled _ hid => exact .filed id (hdisk.trans hfiled) hunsaved ((hnames id).mpr hid)
  have hcase := enrolCase_enrolStep env boot s e
  generalize enrolStep env boot s e = s' at hcase hfresh
  cases hcase with
  | request x =>
    cases h with
    | new hnone hunsaved hfree => exact .new hnone hunsaved fun id hid => hfree id ((hleaves id).mp hid)
    | unsaved id hnone hunsaved hid => exact .unsaved id hnone hunsaved ((hleaves id).mpr hid)
    | filed id hfiled hunsaved hid => exact .filed id hfiled hunsaved ((hleaves id).mpr hid)
  | @boot genkey cut disk result hoff hkeys =>
    have hstate := (getOrCreateKeypair_spec hinv.files hkeys).2.1
    refine hsame _ (by rw [hoff]; rfl) ?_ (by cases result <;> rfl) fun _ => Iff.rfl
    unfold Disk.loadPeerId
    rw [hstate]
  | @enrol publicIp delivery now keys _ hstage henrol =>
    have hbefore : s.stage.unsaved? = none := by rw [hstage]; rfl
    cases henrol with
    | unsent => exact hsame _ hbefore rfl rfl fun _ => Iff.rfl
    | refused _ _ htables =>
      refine hsame _ hbefore rfl rfl fun id => ?_
      unfold NameTaken
      rw [← htables]
      exact Iff.rfl
    | taken row hnone hne hok hnet hname _ h201 =>
      -- the answer has come: otherwise the registration would be lost
      have hanswered : delivery = .answered := by
        cases delivery with
        | answered => rfl
        | lost => exact absurd rfl hne
        | unheard => exact absurd ⟨keys, hstage, hnone, h201⟩ hkept
      subst hanswered
      exact .unsaved now.id hnone rfl (nameTaken_taken hok hnet hname).2
    | updated id hfiled =>
      refine hsame _ hbefore rfl ?_ fun p => nameTaken_update s id p
      dsimp only
      split <;> rfl
  | @cut keys id hstage =>
    have hne : s.stage.unsaved? ≠ none := by
      rw [hstage]
      intro hnone
      cases hnone
    exact absurd hne hkept
  | @saved keys id hstage =>
    obtain ⟨-, hown⟩ := hinv.unsaved id (by rw [hstage]; rfl)
    have hne : id ≠ [] := by
      rintro rfl
      exact hfresh.nonempty hown.1
    cases h with
    | new _ hunsaved =>
      rw [hstage] at hunsaved
      cases hunsaved
    | unsaved id' _ hunsaved hid =>
      rw [hstage] at hunsaved
      cases hunsaved
      exact .filed id (loadPeerId_saved s.disk hne) rfl hid
    | filed _ _ hunsaved =>
      rw [hstage] at hunsaved
      cases hunsaved
  | stop =>
    have hbefore : s.stage.unsaved? = none := Decidable.byContradiction hkept
    exact hsame _ hbefore rfl rfl fun _ => Iff.rfl
  | _ => exact h

/-- **What a run comes to.**  The agent is on the way, or it has lost a registration and is
stranded. -/
theorem onTheWay_or_stranded {es : List EnrolEvent}
    (hleaves : Along (enrolStep env boot) (LeavesName env boot) noEnrolment es)
    (hfresh : FreshIds (run (enrolStep env boot) noEnrolment es)) :
    let lost := Occurs (fun pre e =>
      LosesRegistration env boot (run (enrolStep env boot) noEnrolment pre) e) es
    (¬ lost ∧ OnTheWay env boot (run (enrolStep env boot) noEnrolment es)) ∨
      (lost ∧ Stranded env boot (run (enrolStep env boot) noEnrolment es)) := by
  intro lost
  induction es using List.reverseRecOn with
  | nil =>
    refine Or.inl ⟨not_occurs_nil _, .new rfl rfl ?_⟩
    rintro id ⟨row, hrow, -⟩
    cases hrow
  | append_singleton es e ih =>
    have hlost := occurs_concat (fun pre e =>
      LosesRegistration env boot (run (enrolStep env boot) noEnrolment pre) e) es e
    rw [run_concat] at hfresh ⊢
    obtain ⟨hbefore, hlast, -⟩ := (along_append _ _ _ _ _).mp hleaves
    have hfresh' := @FreshIds.before env boot _ [e] hfresh
    have hinv := enrolInv_run hfresh'
    rcases ih hbefore hfresh' with ⟨hkept, hway⟩ | ⟨hgone, hstranded⟩
    · by_cases hloses : LosesRegistration env boot (run (enrolStep env boot) noEnrolment es) e
      · exact Or.inr ⟨hlost.mpr (Or.inr hloses), stranded_of_loses hway hloses⟩
      · exact Or.inl ⟨fun h => (hlost.mp h).elim hkept hloses,
          hway.step hinv hlast hloses hfresh⟩
    · exact Or.inr ⟨hlost.mpr (Or.inl hgone), hstranded.step hinv hlast⟩

/-- A boot that has the id of a peer updates it, one that has none registers. -/
theorem run_enrol_save (s : Enrolment) (hstage : s.stage = .keyed keys) :
    run (enrolStep env boot) s [.enrol publicIp .answered now, .save false] =
      enrolStep env boot (s.enrol env boot keys publicIp .answered now) (.save false) := by
  have h : enrolStep env boot s (.enrol publicIp .answered now) =
      s.enrol env boot keys publicIp .answered now := by
    simp only [enrolStep, hstage]
  rw [run_cons, run_cons, run_nil, h]

end

/-- **What gets through.**  In every run in which others leave the name of the agent alone: a boot
that is answered, with arguments that pass the checks, a good token, and a free address if it has
to register, gets through if and only if no registration has been lost before. -/
theorem gets_through_iff (env : Api.Env) (boot : BootConfig) {es : List EnrolEvent} {keys : Keypair}
    {publicIp : JsString} {now : Api.Draws}
    (hleaves : Along (enrolStep env boot) (LeavesName env boot) noEnrolment es)
    (hfresh : FreshIds (run (enrolStep env boot) noEnrolment
      (es ++ [.enrol publicIp .answered now, .save false])))
    (hstage : (run (enrolStep env boot) noEnrolment es).stage = .keyed keys)
    (hvalid : boot.args.Valid env.lang publicIp keys.pubkey)
    (hallowed : Api.requireAdminOrNetwork env ((run (enrolStep env boot) noEnrolment es).tables env)
      boot.authorization boot.args.networkId = none)
    (hroom : (run (enrolStep env boot) noEnrolment es).disk.loadPeerId = none → ∃ network,
      ((run (enrolStep env boot) noEnrolment es).tables env).networks.get? boot.args.networkId =
        some network ∧
      (Api.allocateIp env.lang (((run (enrolStep env boot) noEnrolment es).tables env).usedIps
        boot.args.networkId) network.subnet).isSome = true) :
    (∃ id, (run (enrolStep env boot) noEnrolment
      (es ++ [.enrol publicIp .answered now, .save false])).stage = .running keys id) ↔
    ¬ Occurs (fun pre e =>
      LosesRegistration env boot (run (enrolStep env boot) noEnrolment pre) e) es := by
  rw [run_append] at hfresh ⊢
  have hfresh' := FreshIds.before hfresh
  have hwhere := onTheWay_or_stranded hleaves hfresh'
  generalize run (enrolStep env boot) noEnrolment es = s at *
  rw [run_enrol_save s hstage] at hfresh ⊢
  have henrol := enrolled_enrol env boot s keys publicIp .answered now
  generalize s.enrol env boot keys publicIp .answered now = s' at henrol hfresh
  have hunsaved : s.stage.unsaved? = none := by rw [hstage]; rfl
  -- the registration, when there is no id in the file
  have hregister : s.disk.loadPeerId = none →
      ((∃ id, (enrolStep env boot s' (.save false)).stage = .running keys id) ↔
        ∀ id, ¬ NameTaken env boot s id) := by
    intro hnone
    have hnew : ∀ {stage}, s' = { s.ask (.serve (boot.register publicIp keys.pubkey) now) with
        stage } → (s.tables env).peers.has now.id = false := by
      rintro stage rfl
      refine Bool.eq_false_iff.mpr fun hhas => ?_
      have hmem : now.id ∈ s.drawn := (Api.ported_exec env hfresh'.nodup).peers now.id hhas
      have hnodup := (@FreshIds.before env boot _ [.save false] hfresh).nodup
      have happend : Enrolment.drawn { s.ask (.serve (boot.register publicIp keys.pubkey) now) with
          stage } = s.drawn ++ [now.id] := List.filterMap_append
      rw [happend, List.nodup_append] at hnodup
      exact hnodup.2.2 now.id hmem now.id (by simp) rfl
    cases henrol with
    | unsent hlost => cases hlost
    | refused _ _ _ hstatus =>
      have h201 := Api.status_register_iff hvalid hallowed (hnew rfl)
      refine ⟨fun hrun => ?_, fun hfree => ?_⟩
      · obtain ⟨id, hrun⟩ := hrun
        cases hrun
      have hstatus' := h201.mpr ⟨hroom hnone, hfree⟩
      exact absurd (hstatus' ▸ hstatus : 400 ≤ 201) (by decide)
    | taken row _ _ hok hnet hname =>
      exact ⟨fun _ => (nameTaken_taken hok hnet hname).1, fun _ => ⟨now.id, rfl⟩⟩
    | updated id hfiled =>
      rw [hnone] at hfiled
      cases hfiled
  rcases hwhere with ⟨hkept, hway⟩ | ⟨hlost, hnone, -, id, hid⟩
  · refine ⟨fun _ => hkept, fun _ => ?_⟩
    cases hway with
    | new hnone _ hfree => exact (hregister hnone).mpr hfree
    | unsaved id _ hsome =>
      rw [hunsaved] at hsome
      cases hsome
    | filed id hfiled _ hid =>
      cases henrol with
      | unsent hlost => cases hlost
      | refused hnone =>
        rw [hfiled] at hnone
        cases hnone
      | taken row hnone =>
        rw [hfiled] at hnone
        cases hnone
      | updated id' hfiled' =>
        rw [hfiled] at hfiled'
        cases hfiled'
        obtain ⟨row, hrow, hnet, -⟩ := hid
        have h200 := (@Api.status_update_iff env (s.tables env) now boot.args publicIp keys.pubkey
          boot.authorization hvalid id (fun row' hrow' => by
            rw [hrow] at hrow'
            cases hrow'
            rw [hnet]
            exact hallowed)).mpr (OMap.has_of_get? hrow)
        rw [if_pos ⟨rfl, h200⟩]
        exact ⟨id, rfl⟩
  · exact ⟨fun hrun => absurd hid ((hregister hnone).mp hrun id), fun hkept => absurd hlost hkept⟩

/-- A registration whose answer gets lost, and the next boot. -/
def unheardRun : List EnrolEvent :=
  [.request (.serve (Api.networkRequest []) (Api.drawsOf Api.networkUuid)), bootNow,
    enrolNow .unheard Api.peerUuid, bootNow]

theorem gets_through_iff_unheardRun : ¬ ∃ id,
    (run (enrolStep Api.sampleEnv sampleBoot) noEnrolment
      (unheardRun ++ [enrolNow .answered Api.otherUuid, .save false])).stage =
      .running samplePair id := by
  have hpeers : (Enrolment.tables Api.sampleEnv
      ⟨[.serve (Api.networkRequest []) (Api.drawsOf Api.networkUuid)], .empty, .off⟩).peers = .empty :=
    OMap.ext_entries (by decide)
  have hleaves : Along (enrolStep Api.sampleEnv sampleBoot) (LeavesName Api.sampleEnv sampleBoot)
      noEnrolment unheardRun := by
    refine ⟨fun id => ?_, trivial, trivial, trivial, trivial⟩
    show Api.Named _ _ _ _ ↔ Api.Named _ _ _ _
    unfold Api.Named
    exact iff_of_eq (congrArg (fun peers : OMap PeerId Api.PeerRecord => ∃ row,
      peers.get? id = some row ∧ row.networkId = _ ∧ row.name = _) hpeers)
  have hiff := @gets_through_iff Api.sampleEnv sampleBoot unheardRun samplePair (js "192.0.2.6")
    (Api.drawsOf Api.otherUuid) hleaves (show FreshIds _ from ⟨by decide, by decide⟩) (by decide)
    ⟨by decide, by decide, by decide, by decide, by decide, by decide⟩ (by decide)
    (fun _ => ⟨_, rfl, by decide⟩)
  exact fun hrun => hiff.mp hrun ⟨unheardRun.take 2, enrolNow .unheard Api.peerUuid, [bootNow], rfl,
    samplePair, by decide, by decide, by decide⟩

/-! ## Peers that are removed -/

/-- The peer of the agent is gone, and the agent does not run. -/
structure Expelled (env : Api.Env) (s : Enrolment) (id : PeerId) : Prop where
  filed : s.disk.loadPeerId = some id
  gone : (s.tables env).peers.get? id = none
  idle : ∀ keys id', s.stage ≠ .running keys id'

theorem Expelled.step {env : Api.Env} {boot : BootConfig} {s : Enrolment} {e : EnrolEvent} {id : PeerId}
    (h : Expelled env s id) (hinv : EnrolInv env boot s)
    (hfresh : FreshIds (enrolStep env boot s e)) : Expelled env (enrolStep env boot s e) id := by
  have hgone : ((enrolStep env boot s e).tables env).peers.get? id = none := by
    refine Option.eq_none_iff_forall_ne_some.mpr fun row' hrow' => ?_
    obtain ⟨row, hrow, -⟩ := row_before hfresh (hinv.filed id h.filed).1 hrow'
    rw [h.gone] at hrow
    cases hrow
  refine ⟨id_stays hinv h.filed, hgone, fun keys' id' hrun => ?_⟩
  have hcase := enrolCase_enrolStep env boot s e
  generalize enrolStep env boot s e = s' at hcase hgone hrun
  cases hcase with
  | @boot genkey cut disk result hoff hkeys => cases result <;> cases hrun
  | @enrol publicIp delivery now keys _ hstage henrol =>
    cases henrol with
    | unsent => cases hrun
    | refused => cases hrun
    | taken => dsimp only at hrun; split at hrun <;> cases hrun
    | updated p hfiled _ hkey =>
      rw [h.filed] at hfiled
      cases hfiled
      dsimp only at hrun
      split at hrun
      · rename_i h200
        -- an update that is taken leaves the row there
        have hrow := hkey h200.2
        replace hgone : ((s.ask (.serve (boot.update id publicIp keys.pubkey) now)).tables
          env).peers.get? id = none := hgone
        rw [hgone] at hrow
        cases hrow
      · cases hrun
  | cut => cases hrun
  | saved hstage =>
    have := (hinv.unsaved _ (by rw [hstage]; rfl)).1
    rw [h.filed] at this
    cases this
  | stop => cases hrun
  | _ => exact h.idle keys' id' hrun

/-- **Removed for good.**  An agent that does not run and whose peer is gone, removed by somebody
or by the reaper, never runs again, whatever others do, free its name or not. -/
theorem removed_for_good (env : Api.Env) (boot : BootConfig) {es es' : List EnrolEvent}
    (hfresh : FreshIds (run (enrolStep env boot) noEnrolment (es ++ es'))) {id : PeerId}
    (hremoved : Expelled env (run (enrolStep env boot) noEnrolment es) id) :
    Expelled env (run (enrolStep env boot) noEnrolment (es ++ es')) id := by
  induction es' using List.reverseRecOn with
  | nil =>
    rw [List.append_nil]
    exact hremoved
  | append_singleton es' e ih =>
    rw [← List.append_assoc, run_concat] at hfresh ⊢
    have hfresh' := @FreshIds.before env boot _ [e] hfresh
    exact (ih hfresh').step (enrolInv_run hfresh') hfresh

theorem removed_for_good_joinRun : ¬ ∃ keys id,
    (run (enrolStep Api.sampleEnv sampleBoot) noEnrolment
      ((joinRun ++ [.stop, .request (.serve (.deletePeer Api.sampleAdmin Api.peerUuid)
        (Api.drawsOf []))]) ++ [bootNow, enrolNow .answered [], .save false])).stage =
      .running keys id := by
  have hexpelled := @removed_for_good Api.sampleEnv sampleBoot
    (joinRun ++ [.stop, .request (.serve (.deletePeer Api.sampleAdmin Api.peerUuid)
      (Api.drawsOf []))]) [bootNow, enrolNow .answered [], .save false]
    (show FreshIds _ from ⟨by decide, by decide⟩) Api.peerUuid
    ⟨by decide, by decide, fun keys id h => by cases h⟩
  exact fun ⟨keys, id, hrun⟩ => hexpelled.idle keys id hrun

end Meshezia
