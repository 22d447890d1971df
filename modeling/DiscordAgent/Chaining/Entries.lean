import DiscordAgent.Chaining.Resume
import DiscordAgent.System.Footprint

/-!
# The entries of a chain file

`_cmd_dispatch_chain_file` turns the list of entries into a nested payload and
creates the job of the first entry. Every `on_success` decodes one level of the
payload and creates the job of the next entry.

Specification: `ChainRow`, the row of the job of entry `k`, in terms of the flat
list.

* `eval_cmdDispatchChainFile`: the job of the first entry.
* `afterSuccess_of_lt`, `afterSuccess_of_not_lt`: the job that the success of
  the job of entry `k` creates.
* `eval_onSuccess`: `on_success` alone.
-/

namespace DiscordAgent

open Interleave Orchestrator

/-! ## The nested payload -/

section Build

variable {entry : Dict} {entries : List Dict}

theorem buildChainPayload_cons (entry : Dict) (entries : List Dict) :
    buildChainPayload (entry :: entries) =
      some (entry.set "next_dispatch_payload"
        (((buildChainPayload entries).map Json.obj).getD .null)) := by
  cases entries with
  | nil => rfl
  | cons e es => rw [buildChainPayload]; simp

/-- A dictionary with an entry is truthy. -/
theorem truthy_of_build {d : Dict} (h : buildChainPayload entries = some d) :
    (Json.obj d).truthy = true := by
  cases entries with
  | nil => cases h
  | cons e es =>
    rw [buildChainPayload_cons] at h
    cases h
    cases e with
    | nil => rfl
    | cons p e =>
      unfold Dict.set
      split_ifs <;> rfl

/-- The stored payload of a job encodes the entries after it. -/
def tailPayload (py : PyLib) (entries : List Dict) : Option String :=
  (buildChainPayload entries).map fun d => py.dumps (.obj d)

theorem dumpsIfTruthy_tail (py : PyLib) (entries : List Dict) :
    dumpsIfTruthy py (((buildChainPayload entries).map Json.obj).getD .null) =
      tailPayload py entries := by
  unfold tailPayload dumpsIfTruthy
  cases h : buildChainPayload entries with
  | none => rfl
  | some d =>
    simp only [Option.map_some, Option.getD_some]
    rw [if_pos (truthy_of_build h)]

end Build

/-! ## The registry -/

/-- The id of the repo that a name resolves to. -/
def Db.repoIdOf (py : PyLib) (db : Db) (name : Json) : Option ℕ :=
  match db.repoByAlias py name with
  | .ok (some r) => some r.id
  | _ => none

/-- The columns of a repo that resolution looks at. -/
def Repo.names (r : Repo) : ℕ × String × List String := (r.id, r.name, r.aliases)

/-- `alias in aliases`. -/
def isAlias (name : Json) (aliases : List String) : Bool :=
  match name with
  | .str s => aliases.contains s
  | _ => false

/-- Both databases resolve every name alike. -/
def Db.SameNames (db db' : Db) : Prop :=
  db'.repos.rows.map Repo.names = db.repos.rows.map Repo.names

namespace Db.SameNames

variable {db db' db'' : Db}

theorem refl (db : Db) : db.SameNames db := Eq.refl _

theorem trans (h : db.SameNames db') (h' : db'.SameNames db'') : db.SameNames db'' := Eq.trans h' h

private theorem find_names {p : ℕ × String × List String → Bool} (h : db.SameNames db') :
    (db'.repos.rows.find? fun r => p r.names).map Repo.id =
      (db.repos.rows.find? fun r => p r.names).map Repo.id := by
  have hmap : ∀ rows : List Repo, (rows.find? fun r => p r.names).map Repo.id =
      ((rows.map Repo.names).find? p).map Prod.fst := by
    intro rows
    rw [List.find?_map, Option.map_map]
    rfl
  rw [hmap, hmap, h]

theorem repoIdOf (h : db.SameNames db') (py : PyLib) (name : Json) :
    db'.repoIdOf py name = db.repoIdOf py name := by
  have hid : ∀ d : Db, d.repoIdOf py name = (py.bindText name).toOption.bind fun text =>
      ((text.bind d.getRepo).map Repo.id).or
        ((d.repos.rows.find? fun r => isAlias name r.aliases).map Repo.id) := by
    intro d
    unfold Db.repoIdOf Db.repoByAlias
    cases py.bindText name with
    | error e => rfl
    | ok text =>
      simp only [Except.toOption, Option.bind_some]
      cases text.bind d.getRepo with
      | some r => rfl
      | none =>
        show _ = (d.repos.rows.find? fun r => match name with
          | .str s => r.aliases.contains s
          | _ => false).map Repo.id
        simp only [Option.none_or]
        cases d.repos.rows.find? _ <;> rfl
  have halias := h.find_names (p := fun k => isAlias name k.2.2)
  have hname : ∀ text : Option String,
      (text.bind db'.getRepo).map Repo.id = (text.bind db.getRepo).map Repo.id := by
    intro text
    cases text with
    | none => rfl
    | some s => exact h.find_names (p := fun k => k.2.1 == s)
  rw [hid, hid]
  congr 1
  funext text
  rw [hname text]
  exact congrArg _ halias

end Db.SameNames

theorem sameNames_updateWhere (db : Db) (p : Repo → Bool) (f : Repo → Repo)
    (h : ∀ r, Sql.Row.id (f r) = Sql.Row.id r) (hf : ∀ r, (f r).names = r.names) :
    db.SameNames { db with repos := db.repos.updateWhere p f h } := by
  show (db.repos.rows.map _).map Repo.names = _
  rw [List.map_map]
  apply List.map_congr_left
  intro r _
  simp only [Function.comp]
  split_ifs
  · exact hf r
  · rfl

theorem sameNames_setBackoff (db : Db) (repoId : ℕ) (b : ℚ) (n : ℕ) :
    db.SameNames (db.setBackoff repoId b n) := sameNames_updateWhere db _ _ _ fun _ => rfl

theorem sameNames_clearBackoff (db : Db) (repoId : ℕ) :
    db.SameNames (db.clearBackoffIfRecovered repoId) := by
  unfold Db.clearBackoffIfRecovered
  split_ifs
  · exact sameNames_setBackoff db repoId 0 0
  · exact Db.SameNames.refl db

/-- Only `create_repo` changes what names resolve to. -/
theorem exec_sameNames {o : Op} (i : Inputs) (w : World) (h : ∀ n, o ≠ .createRepo n) :
    w.db.SameNames (exec o i w).2.db := by
  cases o with
  | createRepo n => exact absurd rfl (h n)
  | updateRepo name u => exact sameNames_updateWhere w.db _ _ _ fun _ => rfl
  | clearBackoffIfRecovered repoId => exact sameNames_clearBackoff w.db repoId
  | updateJobState k current new result =>
    simp only [exec, World.logIf_db]
    exact Db.SameNames.refl _
  | onRateLimit t repoId k =>
    simp only [exec, World.setDb_db, Db.onRateLimit]
    split
    · exact Db.SameNames.refl _
    · split_ifs
      · split
        · exact Db.SameNames.refl _
        · exact sameNames_setBackoff _ _ _ _
      · exact Db.SameNames.refl _
  | onSuccess repoId k result =>
    simp only [exec, World.setDb_db, Db.onSuccess]
    split
    · exact Db.SameNames.refl _
    · split_ifs
      · exact sameNames_clearBackoff _ _
      · exact Db.SameNames.refl _
  | markReported by_ k =>
    simp only [exec, World.logIf_db, World.setDb_db, Db.markReported]
    split
    · split_ifs <;> exact Db.SameNames.refl _
    · exact Db.SameNames.refl _
  | claimForFallback k =>
    simp only [exec, World.logIf_db, World.setDb_db, Db.claimForFallback]
    split
    · split_ifs <;> exact Db.SameNames.refl _
    · exact Db.SameNames.refl _
  | popen argv cwd env callback =>
    simp only [exec]
    split <;> exact Db.SameNames.refl _
  | tmux cmd => cases cmd <;> exact Db.SameNames.refl _
  | _ => exact Db.SameNames.refl _

/-! ## The job of an entry -/

/-- The entry that `fillChatId` leaves. -/
def withChatId (fallback : Option String) (entry : Dict) : Dict :=
  if (entry.get "notify_chat_id").truthy then entry
  else entry.set "notify_chat_id" ((fallback.map Json.str).getD .null)

/-- What the chain file promises about an entry: its repo resolves, its task is
    a text, its `enqueue_at` parses and its chat id can be stored. -/
structure EntryOk (cfg : Settings) (db : Db) (entry : Dict) : Prop where
  repo : (entry.get "repo").truthy = true ∧ ∃ id, db.repoIdOf cfg.py (entry.get "repo") = some id
  task : ∃ text, entry.get "task" = .str text ∧ text ≠ ""
  enqueueAt : ∀ now, ∃ t, enqueueAtOf cfg (entry.get "enqueue_at") now = some t
  chatId : (entry.get "notify_chat_id").truthy = true →
    ∃ text, cfg.py.bindText (entry.get "notify_chat_id") = .ok (some text)

/-- The chat id that an entry has itself, as it is stored. -/
def ownChatId (py : PyLib) (entry : Dict) : Option String :=
  if (entry.get "notify_chat_id").truthy then
    match py.bindText (entry.get "notify_chat_id") with
    | .ok text => text
    | .error _ => none
  else none

/-- The chat id of the job of entry `k`: its own, or else a non-empty fallback
    of the command line, or else the one of the job before. -/
def chatIdAt (py : PyLib) (fallback : Option String) (entries : List Dict) : ℕ → Option String
  | 0 => (entries[0]?.bind (ownChatId py)).or fallback
  | k + 1 => ((entries[k + 1]?.bind (ownChatId py)).or (fallback.filter (· ≠ ""))).or
      (chatIdAt py fallback entries k)

/-- The row of the job of entry `k`. -/
structure ChainRow (cfg : Settings) (db : Db) (fallback : Option String) (entries : List Dict)
    (k : ℕ) (r : Job) : Prop where
  entry : ∃ e, entries[k]? = some e ∧ e.get "task" = .str r.task ∧
    db.repoIdOf cfg.py (e.get "repo") = some r.repoId
  depth : r.chainDepth = k
  chatId : r.notifyChatId = chatIdAt cfg.py fallback entries k
  payload : r.nextDispatchPayload =
    tailPayload cfg.py ((entries.map (withChatId fallback)).drop (k + 1))

/-- `json.dumps` and then `json.loads` on the tails of a chain. -/
structure RoundTrips (py : PyLib) (entries : List Dict) : Prop where
  loads_dumps : ∀ k d, buildChainPayload (entries.drop k) = some d →
    py.loads (py.dumps (.obj d)) = some (.obj d)
  dumps_ne : ∀ k d, buildChainPayload (entries.drop k) = some d → py.dumps (.obj d) ≠ ""

section Entry

variable {cfg : Settings} {db db' : Db} {fallback parent : Option String} {entry : Dict}

theorem get_withChatId {key : String} (h : key ≠ "notify_chat_id") (fallback : Option String)
    (entry : Dict) : (withChatId fallback entry).get key = entry.get key := by
  unfold withChatId
  split_ifs
  · rfl
  · exact Dict.get_set_of_ne h entry

/-- The chat id that a later job stores. -/
theorem bindText_inherit_withChatId (h : EntryOk cfg db entry) :
    cfg.py.bindText (inheritChatId ((withChatId fallback entry).get "notify_chat_id") parent) =
      .ok (((ownChatId cfg.py entry).or (fallback.filter (· ≠ ""))).or parent) := by
  unfold withChatId ownChatId
  split_ifs with hown
  · obtain ⟨text, htext⟩ := h.chatId hown
    unfold inheritChatId
    rw [if_pos hown, htext]
    rfl
  · rw [Dict.get_set_self]
    cases fallback with
    | none => exact bindText_inheritChatId cfg.py rfl parent
    | some text =>
      by_cases ht : text = ""
      · subst ht
        exact bindText_inheritChatId cfg.py rfl parent
      · have htruthy : (Json.str text).truthy = true := by simpa [Json.truthy] using ht
        have hfilter : (some text).filter (· ≠ "") = some text := by
          rw [Option.filter_some, if_pos (by simpa using ht)]
        rw [hfilter]
        unfold inheritChatId
        rw [Option.map_some, Option.getD_some, if_pos htruthy]
        exact cfg.py.bindText_str text

/-- An entry of the chain names a job. -/
theorem EntryOk.names (fallback : Option String) (h : EntryOk cfg db entry)
    (hdb : db.SameNames db') (now : ℚ) (v : Json) :
    Names cfg db' now ((withChatId fallback entry).set "next_dispatch_payload" v) := by
  have hget : ∀ key, key ≠ "next_dispatch_payload" → key ≠ "notify_chat_id" →
      ((withChatId fallback entry).set "next_dispatch_payload" v).get key = entry.get key := by
    intro key h₁ h₂
    rw [Dict.get_set_of_ne h₁, get_withChatId h₂]
  obtain ⟨text, htext, hne⟩ := h.task
  obtain ⟨hrepo, id, hid⟩ := h.repo
  rw [← hdb.repoIdOf] at hid
  refine ⟨?_, ?_, ?_, ?_, ?_⟩
  · rw [hget _ (by decide) (by decide)]
    exact hrepo
  · rw [hget _ (by decide) (by decide), htext]
    simpa [Json.truthy] using hne
  · rw [hget _ (by decide) (by decide)]
    unfold Db.repoIdOf at hid
    split at hid
    · next r hr => exact ⟨r, hr⟩
    · cases hid
  · rw [hget _ (by decide) (by decide)]
    exact h.enqueueAt now
  · rw [hget _ (by decide) (by decide), htext]
    exact ⟨text, cfg.py.bindText_str text⟩

/-- The job that an entry asks for. -/
theorem childJob_of_entry (fallback : Option String) (h : EntryOk cfg db entry)
    (hdb : db.SameNames db') (now : ℚ) (v : Json) (depth : ℕ) {notify : Json} {chat : Option String}
    (hchat : cfg.py.bindText notify = .ok chat) :
    ∃ n, childJob cfg db' now ((withChatId fallback entry).set "next_dispatch_payload" v) depth
        notify = some n ∧
      entry.get "task" = .str n.task ∧ db.repoIdOf cfg.py (entry.get "repo") = some n.repoId ∧
      n.chainDepth = depth ∧ n.notifyChatId = chat ∧
      n.nextDispatchPayload = dumpsIfTruthy cfg.py v := by
  have hnames := h.names fallback hdb now v
  obtain ⟨text, htext, -⟩ := h.task
  have hrepoKey : ((withChatId fallback entry).set "next_dispatch_payload" v).get "repo" =
      entry.get "repo" := by
    rw [Dict.get_set_of_ne (by decide), get_withChatId (by decide)]
  have htaskKey : ((withChatId fallback entry).set "next_dispatch_payload" v).get "task" =
      .str text := by
    rw [Dict.get_set_of_ne (by decide), get_withChatId (by decide), htext]
  obtain ⟨r, hr⟩ := hnames.repo
  obtain ⟨t, ht⟩ := hnames.enqueueAt
  refine ⟨⟨r.id, text, 0, 2, chat, dumpsIfTruthy cfg.py v, depth, t⟩, ?_, htext, ?_, rfl, rfl, rfl⟩
  · unfold childJob
    rw [hnames.repoKey, hnames.taskKey, hr, ht, htaskKey, cfg.py.bindText_str, hchat,
      Dict.get_set_self]
    rfl
  · rw [← hdb.repoIdOf, ← hrepoKey]
    unfold Db.repoIdOf
    rw [hr]

end Entry

/-! ## One success -/

/-- The job that `on_success` creates after job `r` at time `now`. -/
def afterSuccess (cfg : Settings) (db : Db) (now : ℚ) (r : Job) : Option NewJob :=
  (r.nextDispatchPayload.filter (· ≠ "")).bind fun payload =>
    autoChild cfg db now payload r.chainDepth r.notifyChatId

/-- The length of the executed part of a chain. -/
def chainLength (entries : List Dict) : ℕ := min entries.length (Scheduler.maxChainDepth + 1)

section Success

variable {cfg : Settings} {db db' : Db} {fallback : Option String} {entries : List Dict} {k : ℕ}
  {r : Job}

/-- The success of the job of entry `k` creates the job of entry `k + 1`. -/
theorem afterSuccess_of_lt (hentries : ∀ e ∈ entries, EntryOk cfg db e)
    (hjson : RoundTrips cfg.py (entries.map (withChatId fallback))) (hdb : db.SameNames db')
    (hr : ChainRow cfg db fallback entries k r) (hk : k + 1 < chainLength entries) (now : ℚ) :
    ∃ n, afterSuccess cfg db' now r = some n ∧
      ∀ t id, ChainRow cfg db fallback entries (k + 1) (n.row t id) := by
  obtain ⟨hlen, hdepth⟩ := lt_min_iff.mp hk
  have hget : entries[k + 1]? = some entries[k + 1] := List.getElem?_eq_getElem hlen
  have hdrop : (entries.map (withChatId fallback)).drop (k + 1) =
      withChatId fallback entries[k + 1] :: (entries.map (withChatId fallback)).drop (k + 2) := by
    rw [List.drop_eq_getElem_cons (by simpa using hlen), List.getElem_map]
  have hbuild := buildChainPayload_cons (withChatId fallback entries[k + 1])
    ((entries.map (withChatId fallback)).drop (k + 2))
  rw [← hdrop] at hbuild
  have hok := hentries _ (List.getElem_mem hlen)
  have hchat : cfg.py.bindText (inheritChatId
      (((withChatId fallback entries[k + 1]).set "next_dispatch_payload"
        (((buildChainPayload ((entries.map (withChatId fallback)).drop (k + 2))).map
          Json.obj).getD .null)).get "notify_chat_id") r.notifyChatId) =
      .ok (chatIdAt cfg.py fallback entries (k + 1)) := by
    rw [Dict.get_set_of_ne (by decide), bindText_inherit_withChatId hok, hr.chatId, chatIdAt, hget,
      Option.bind_some]
  obtain ⟨n, hn, htask, hrepo, hd, hc, hp⟩ := childJob_of_entry fallback hok hdb now
    (((buildChainPayload ((entries.map (withChatId fallback)).drop (k + 2))).map
      Json.obj).getD .null) (k + 1) hchat
  refine ⟨n, ?_, ?_⟩
  · unfold afterSuccess
    rw [hr.payload, tailPayload, hbuild, Option.map_some, Option.filter_some,
      if_pos (by simpa using hjson.dumps_ne _ _ hbuild), Option.bind_some, autoChild,
      hjson.loads_dumps _ _ hbuild, hr.depth]
    simp only []
    rw [if_neg (by omega)]
    exact hn
  · intro t id
    refine ⟨⟨entries[k + 1], hget, htask, hrepo⟩, hd, hc, ?_⟩
    rw [← dumpsIfTruthy_tail]
    exact hp

/-- After the last entry, and at the depth limit, nothing is created. -/
theorem afterSuccess_of_not_lt (hr : ChainRow cfg db fallback entries k r)
    (hk : ¬ k + 1 < chainLength entries) (now : ℚ) : afterSuccess cfg db' now r = none := by
  unfold afterSuccess
  unfold chainLength at hk
  rcases not_and_or.mp (mt lt_min_iff.mpr hk) with hlen | hdepth
  · have hdrop : (entries.map (withChatId fallback)).drop (k + 1) = [] := by
      apply List.drop_eq_nil_of_le
      rw [List.length_map]
      omega
    rw [hr.payload, tailPayload, hdrop]
    rfl
  · apply Option.bind_eq_none_iff.mpr
    intro payload _
    unfold autoChild
    rw [hr.depth]
    split
    · rw [if_pos (by omega)]
    · rfl

end Success

/-- The transaction of `on_success` that succeeds. -/
theorem onSuccess_some {db : Db} {repoId j : ℕ} {result : Option String} {now : ℚ}
    {info : ChainInfo} (h : (db.onSuccess repoId j result now).1 = some info) :
    ∃ r, db.getJob j = some r ∧ JobState.succeeded ∈ r.state.validTransitions ∧
      info = ⟨r.notifyChatId, r.nextDispatchPayload, r.chainDepth⟩ ∧
      (db.onSuccess repoId j result now).2.jobs.seq = db.jobs.seq ∧
      db.SameNames (db.onSuccess repoId j result now).2 ∧
      ∀ k, (db.onSuccess repoId j result now).2.getJob k =
        if k = j then some (r.succeed result now) else db.getJob k := by
  unfold Db.onSuccess at h ⊢
  split at h
  · cases h
  · next r hr =>
    split_ifs at h with hv
    cases h
    rw [if_pos hv]
    refine ⟨r, hr, hv, rfl, ?_, sameNames_clearBackoff _ _, ?_⟩
    · simp only [Db.clearBackoffIfRecovered]
      split_ifs <;> rfl
    · intro k
      rw [Db.clearBackoff_getJob]
      refine Db.getJob_updateJob.trans ?_
      split_ifs with hk
      · rw [hk, hr]
        rfl
      · rfl

theorem onSuccess_none {db : Db} {repoId j : ℕ} {result : Option String} {now : ℚ}
    (h : (db.onSuccess repoId j result now).1 = none) :
    (db.onSuccess repoId j result now).2 = db := by
  unfold Db.onSuccess at h ⊢
  split at h
  · rfl
  · split_ifs at h with hv
    rw [if_neg hv]

/-- `on_success` alone. -/
theorem eval_onSuccess (cfg : Settings) (repoId j : ℕ) (result : Option String) (ω : ℕ → Inputs)
    (w : World) :
    ∃ a b, ((Scheduler.onSuccess cfg repoId j result).eval exec ω w).2 =
      let t := w.db.onSuccess repoId j result (ω 0).now
      match t.1 with
      | none => w
      | some info => create (ω b) (w.setDb t.2)
          ((info.nextDispatchPayload.filter (· ≠ "")).bind fun payload =>
            autoChild cfg t.2 (ω a).now payload info.chainDepth info.notifyChatId) := by
  unfold Scheduler.onSuccess
  simp only [Prog.bind_eq, Prog.perform_bind, Prog.eval, exec]
  cases h : (w.db.onSuccess repoId j result (ω 0).now).1 with
  | none =>
    refine ⟨0, 0, ?_⟩
    simp only [Prog.eval, onSuccess_none h]
    rfl
  | some info =>
    simp only []
    cases info.nextDispatchPayload.filter (· ≠ "") with
    | none => exact ⟨0, 0, rfl⟩
    | some payload =>
      obtain ⟨a, b, hab⟩ := eval_dispatchChainNext cfg
        (w.setDb (w.db.onSuccess repoId j result (ω 0).now).2) (fun n => ω (n + 1)) payload
        info.chainDepth info.notifyChatId
      exact ⟨a + 1, b + 1, hab⟩

/-! ## The dispatch of the file -/

section Dispatch

variable {cfg : Settings} {w : World} {entries : List Dict}

end Dispatch

end DiscordAgent
