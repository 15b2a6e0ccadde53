import Mathlib.Data.List.Forall2
import PaminMemory.Foundation.Fallible
import PaminMemory.Settings.Server

/-!
# The server a command starts

A command forwards the flags it was given to the server it starts, and then asks that server
for what it resolved itself.
-/

namespace PaminMemory
namespace Settings

open Foundation (bind_eq_ok)

def looksLikeFlag (value : OsString) : Bool :=
  value.head? = some (OsUnit.char '-') && 1 < value.length

def written (pairs : List (String × OsString)) : List OsString :=
  pairs.flatMap fun pair => [osString ("--" ++ pair.1), pair.2]

def setFlag (boolish : String -> Option Bool) (args : ServerArgs)
    (pair : String × OsString) : Option ServerArgs :=
  match pair.1 with
  | "device" => (parseDevice pair.2).map fun value => { args with device := some value }
  | "inference-threads" => ((toStr pair.2).bind NonZero.parse).map fun value =>
      { args with inferenceThreads := some value }
  | "ep-library" => (parsePath pair.2).map fun value =>
      { args with epLibraries := args.epLibraries ++ [value] }
  | "prepared" => ((toStr pair.2).bind boolish).map fun value =>
      { args with prepared := some value }
  | "fused-attention" => ((toStr pair.2).bind boolish).map fun value =>
      { args with fusedAttention := some value }
  | "split-embeddings" => ((toStr pair.2).bind boolish).map fun value =>
      { args with splitEmbeddings := some value }
  | "model-idle" => ((toStr pair.2).bind NonZero.parse).map fun value =>
      { args with modelIdle := some value }
  | "open-indexes" => ((toStr pair.2).bind NonZero.parse).map fun value =>
      { args with openIndexes := some value }
  | "jit" => ((toStr pair.2).bind boolish).map fun value => { args with jit := some value }
  | "postgres-dir" => (parsePath pair.2).map fun value =>
      { args with postgresDir := some value }
  | "models-dir" => (parsePath pair.2).map fun value => { args with modelsDir := some value }
  | _ => none

/-- The reading of a command line's arguments, as far as flags with values go. -/
structure Clap where
  boolish : String -> Option Bool
  boolish_true : boolish "true" = some true
  boolish_false : boolish "false" = some false
  read : List OsString -> Except String ServerArgs
  /-- Flags with values are read in order, none twice but one that may be repeated. -/
  reads : forall {pairs args}, (forall pair, pair ∈ pairs -> looksLikeFlag pair.2 = false) ->
    ((pairs.map Prod.fst).filter fun name => name ≠ "ep-library").Nodup ->
      pairs.foldlM (setFlag boolish) ServerArgs.none = some args ->
        read (written pairs) = Except.ok args
  /-- A value with a hyphen in front is read as a flag, and the flag before it as without. -/
  needsValue : forall {pairs pair}, pair ∈ pairs -> looksLikeFlag pair.2 = true ->
    exists error, read (written pairs) = Except.error error
  /-- A flag there is not, or a value not valid for its flag, is refused. -/
  validates : forall {pairs}, pairs.foldlM (setFlag boolish) ServerArgs.none = none ->
    exists error, read (written pairs) = Except.error error

section Forwarding

def flag {α : Type} (name : String) (value : Option α) (text : α -> OsString) :
    List (String × OsString) :=
  (value.map fun value => (name, text value)).toList

def flags (args : ServerArgs) : List (String × OsString) :=
  flag "device" args.device (fun device => osString device.label) ++
    flag "inference-threads" args.inferenceThreads (fun n => osString n.toText) ++
    args.epLibraries.map (fun library => ("ep-library", library)) ++
    flag "prepared" args.prepared (fun b => osString (boolText b)) ++
    flag "fused-attention" args.fusedAttention (fun b => osString (boolText b)) ++
    flag "split-embeddings" args.splitEmbeddings (fun b => osString (boolText b)) ++
    flag "model-idle" args.modelIdle (fun n => osString n.toText) ++
    flag "open-indexes" args.openIndexes (fun n => osString n.toText) ++
    flag "jit" args.jit (fun b => osString (boolText b)) ++
    flag "postgres-dir" args.postgresDir id

def forwarded (args : ServerArgs) : List OsString := written (flags args)

def started (clap : Clap) (machine : Machine) (root : Path) (arguments : List OsString) :
    Except String Server := do
  let line ← clap.read arguments
  let given ← matched machine line
  resolve machine root given

def Writable (path : Path) : Prop := path ≠ [] ∧ looksLikeFlag path = false

def modelsDirUnflagged (machine : Machine) (root : Path) : Except String Path := do
  let serve ← machine.read (join root (osString CONFIG))
  let fromEnv ← fallback none machine.modelsDirVar parsePath
  let envModels ← fromEnv.mapM fun path => anchored machine path none
  let fileModels ← serve.modelsDir.mapM fun path => anchored machine path (some root)
  pure ((envModels <|> fileModels).getD machine.modelsDir)

end Forwarding

/-!
# Reading back what is forwarded
-/

section Reading

variable {clap : Clap}

theorem parse_toText (n : NonZero) : NonZero.parse n.toText = some n := by
  have hdigits : n.toText.toList = Nat.toDigits 10 n.val := by
    simp [NonZero.toText]
  have hall : (Nat.toDigits 10 n.val).all Char.isDigit = true :=
    List.all_eq_true.mpr fun c hc => Nat.isDigit_of_mem_toDigits (by decide) (by decide) hc
  have hfigures : NonZero.withoutSign n.toText.toList = Nat.toDigits 10 n.val := by
    rw [hdigits]
    unfold NonZero.withoutSign
    split
    next rest hsign =>
      rw [hsign] at hall
      simp at hall
    next => rfl
  have hvalue : Nat.ofDigitChars 10 (Nat.toDigits 10 n.val) 0 = n.val :=
    Nat.ofDigitChars_toDigits (by decide) (by decide)
  unfold NonZero.parse
  simp only [hfigures]
  simp [Nat.toDigits_ne_nil, hall, hvalue, n.pos, n.bound]

theorem parseDevice_label (device : DeviceChoice) :
    parseDevice (osString device.label) = some device := by
  cases device with
  | auto => decide
  | cpu => decide

theorem boolish_boolText (clap : Clap) (b : Bool) : clap.boolish (boolText b) = some b := by
  cases b with
  | false => exact clap.boolish_false
  | true => exact clap.boolish_true

theorem foldlM_flag {α : Type} {name : String} {value : Option α} {text : α -> OsString}
    {before : ServerArgs} (put : ServerArgs -> Option α -> ServerArgs)
    (hnone : put before none = before)
    (hset : forall v, value = some v ->
      setFlag clap.boolish before (name, text v) = some (put before (some v))) :
    (flag name value text).foldlM (setFlag clap.boolish) before = some (put before value) := by
  cases value with
  | none =>
      rw [hnone]
      rfl
  | some v => simp [flag, hset v rfl]

theorem foldlM_libraries {libraries : List Path} (h : forall path, path ∈ libraries -> path ≠ [])
    (before : ServerArgs) :
    (libraries.map fun library => ("ep-library", library)).foldlM (setFlag clap.boolish) before =
      some { before with epLibraries := before.epLibraries ++ libraries } := by
  induction libraries generalizing before with
  | nil => simp
  | cons path rest ih =>
      have hset : setFlag clap.boolish before ("ep-library", path) =
          some { before with epLibraries := before.epLibraries ++ [path] } := by
        simp [setFlag, parsePath, h path List.mem_cons_self]
      rw [List.map_cons, List.foldlM_cons, hset]
      change List.foldlM _ _ _ = _
      rw [ih fun path hpath => h path (List.mem_cons_of_mem _ hpath)]
      simp

theorem foldlM_flags {args : ServerArgs}
    (hlibraries : forall path, path ∈ args.epLibraries -> path ≠ [])
    (hpostgres : forall path, args.postgresDir = some path -> path ≠ []) :
    (flags args).foldlM (setFlag clap.boolish) ServerArgs.none =
      some { args with modelsDir := none } := by
  unfold flags
  simp only [List.foldlM_append, Option.bind_eq_bind]
  rw [foldlM_flag fun before value => { before with device := value }, Option.bind_some,
    foldlM_flag fun before value => { before with inferenceThreads := value },
    Option.bind_some, foldlM_libraries hlibraries, Option.bind_some,
    foldlM_flag fun before value => { before with prepared := value }, Option.bind_some,
    foldlM_flag fun before value => { before with fusedAttention := value }, Option.bind_some,
    foldlM_flag fun before value => { before with splitEmbeddings := value },
    Option.bind_some,
    foldlM_flag fun before value => { before with modelIdle := value }, Option.bind_some,
    foldlM_flag fun before value => { before with openIndexes := value }, Option.bind_some,
    foldlM_flag fun before value => { before with jit := value }, Option.bind_some,
    foldlM_flag fun before value => { before with postgresDir := value }]
  · rfl
  -- A flag not given leaves what was read before it.
  any_goals rfl
  · intro path h
    simp [setFlag, parsePath, hpostgres path h]
  all_goals
    intro v h
    simp [setFlag, parseDevice_label, parse_toText, boolish_boolText]

theorem mem_flag {α : Type} {name : String} {value : Option α} {text : α -> OsString}
    {pair : String × OsString} :
    pair ∈ flag name value text <-> exists v, value = some v ∧ pair = (name, text v) := by
  cases value with
  | none => simp [flag]
  | some v => simp [flag]

theorem names_flag {α : Type} (name : String) (value : Option α) (text : α -> OsString) :
    (((flag name value text).map Prod.fst).filter fun name => name ≠ "ep-library").Sublist
      [name] := by
  apply List.filter_sublist.trans
  cases value with
  | none => simp [flag]
  | some v => simp [flag]

theorem names_flags (args : ServerArgs) :
    (((flags args).map Prod.fst).filter fun name => name ≠ "ep-library").Nodup := by
  have hlibraries : (((args.epLibraries.map fun library => ("ep-library", library)).map
      Prod.fst).filter fun name => name ≠ "ep-library").Sublist [] := by
    simp
  have hnames : (["device"] ++ ["inference-threads"] ++ [] ++ ["prepared"] ++
      ["fused-attention"] ++ ["split-embeddings"] ++ ["model-idle"] ++ ["open-indexes"] ++
      ["jit"] ++ ["postgres-dir"]).Nodup := by
    decide
  apply List.Nodup.sublist _ hnames
  unfold flags
  simp only [List.map_append, List.filter_append]
  repeat' apply List.Sublist.append
  any_goals apply names_flag
  exact hlibraries

theorem looksLikeFlag_label (device : DeviceChoice) :
    looksLikeFlag (osString device.label) = false := by
  cases device with
  | auto => decide
  | cpu => decide

theorem looksLikeFlag_boolText (b : Bool) : looksLikeFlag (osString (boolText b)) = false := by
  cases b with
  | false => decide
  | true => decide

theorem looksLikeFlag_toText (n : NonZero) : looksLikeFlag (osString n.toText) = false := by
  have hdigits : n.toText.toList = Nat.toDigits 10 n.val := by
    simp [NonZero.toText]
  unfold looksLikeFlag osString
  rw [hdigits]
  cases hfigures : Nat.toDigits 10 n.val with
  | nil => rfl
  | cons c rest =>
      have hdigit : c.isDigit = true :=
        Nat.isDigit_of_mem_toDigits (by decide) (by decide) (hfigures ▸ List.mem_cons_self)
      have hsign : c ≠ '-' := by
        intro h
        rw [h] at hdigit
        exact absurd hdigit (by decide)
      simp [hsign]

theorem looksLikeFlag_flags {args : ServerArgs}
    (hlibraries : forall path, path ∈ args.epLibraries -> looksLikeFlag path = false)
    (hpostgres : forall path, args.postgresDir = some path -> looksLikeFlag path = false)
    {pair : String × OsString} (h : pair ∈ flags args) : looksLikeFlag pair.2 = false := by
  unfold flags at h
  simp only [List.mem_append, mem_flag, List.mem_map] at h
  rcases h with ((((((((h | h) | h) | h) | h) | h) | h) | h) | h) | h
  · obtain ⟨device, _, rfl⟩ := h
    exact looksLikeFlag_label device
  · obtain ⟨n, _, rfl⟩ := h
    exact looksLikeFlag_toText n
  · obtain ⟨library, hlibrary, rfl⟩ := h
    exact hlibraries library hlibrary
  · obtain ⟨b, _, rfl⟩ := h
    exact looksLikeFlag_boolText b
  · obtain ⟨b, _, rfl⟩ := h
    exact looksLikeFlag_boolText b
  · obtain ⟨b, _, rfl⟩ := h
    exact looksLikeFlag_boolText b
  · obtain ⟨n, _, rfl⟩ := h
    exact looksLikeFlag_toText n
  · obtain ⟨n, _, rfl⟩ := h
    exact looksLikeFlag_toText n
  · obtain ⟨b, _, rfl⟩ := h
    exact looksLikeFlag_boolText b
  · obtain ⟨path, hpath, rfl⟩ := h
    exact hpostgres path hpath

/-- The paths that are forwarded, each as the value of a flag. -/
def Forwardable (args : ServerArgs) : Prop :=
  (forall path, path ∈ args.epLibraries -> Writable path) ∧
    forall path, args.postgresDir = some path -> Writable path

theorem read_forwarded {args : ServerArgs} (h : Forwardable args) :
    clap.read (forwarded args) = Except.ok { args with modelsDir := none } := by
  apply clap.reads
  · intro pair hpair
    exact looksLikeFlag_flags (fun path hpath => (h.1 path hpath).2)
      (fun path hpath => (h.2 path hpath).2) hpair
  · exact names_flags args
  · exact foldlM_flags (fun path hpath => (h.1 path hpath).1)
      fun path hpath => (h.2 path hpath).1

theorem foldlM_none {pairs : List (String × OsString)} {pair : String × OsString}
    (hpair : pair ∈ pairs) (hset : forall before, setFlag clap.boolish before pair = none)
    (before : ServerArgs) : pairs.foldlM (setFlag clap.boolish) before = none := by
  induction pairs generalizing before with
  | nil => exact absurd hpair List.not_mem_nil
  | cons first rest ih =>
      rw [List.foldlM_cons]
      cases List.mem_cons.mp hpair with
      | inl hfirst =>
          rw [← hfirst, hset before]
          rfl
      | inr hrest =>
          cases setFlag clap.boolish before first with
          | none => rfl
          | some after => exact ih hrest after

theorem read_of_unwritable {args : ServerArgs} {name : String} {path : Path}
    (hmem : (name, path) ∈ flags args)
    (hempty : forall before, setFlag clap.boolish before (name, []) = none)
    (h : ¬Writable path) : exists error, clap.read (forwarded args) = Except.error error := by
  cases hflag : looksLikeFlag path with
  | true => exact clap.needsValue hmem hflag
  | false =>
      apply clap.validates
      have hnil : path = [] := by
        by_contra hne
        exact h ⟨hne, hflag⟩
      rw [hnil] at hmem
      exact foldlM_none hmem hempty ServerArgs.none

theorem forwardable_of_read {args line : ServerArgs}
    (h : clap.read (forwarded args) = Except.ok line) : Forwardable args := by
  constructor
  · intro path hpath
    by_contra hunwritable
    have hmem : ("ep-library", path) ∈ flags args := by
      simp [flags, mem_flag, hpath]
    obtain ⟨error, herror⟩ : exists error, clap.read (forwarded args) = Except.error error :=
      read_of_unwritable hmem (fun before => by simp [setFlag, parsePath]) hunwritable
    rw [h] at herror
    cases herror
  · intro path hpath
    by_contra hunwritable
    have hmem : ("postgres-dir", path) ∈ flags args := by
      simp [flags, mem_flag, hpath]
    obtain ⟨error, herror⟩ : exists error, clap.read (forwarded args) = Except.error error :=
      read_of_unwritable hmem (fun before => by simp [setFlag, parsePath]) hunwritable
    rw [h] at herror
    cases herror

end Reading

/-!
# Matching
-/

section Matching

variable {machine : Machine} {root : Path}

theorem shown_kept (epLibraries : List Path) (postgresDir : Option Path) (modelsDir : Path)
    (entry : Entry) :
    (Entry.shown machine epLibraries postgresDir modelsDir entry).key = entry.key ∧
      (Entry.shown machine epLibraries postgresDir modelsDir entry).compared =
        entry.compared ∧
      (Entry.shown machine epLibraries postgresDir modelsDir entry).source = entry.source := by
  unfold Entry.shown
  split
  · split
    · exact ⟨rfl, rfl, rfl⟩
    · exact ⟨rfl, rfl, rfl⟩
  · split
    · exact ⟨rfl, rfl, rfl⟩
    · exact ⟨rfl, rfl, rfl⟩
  · exact ⟨rfl, rfl, rfl⟩
  · exact ⟨rfl, rfl, rfl⟩

theorem pick_kept (key : String) (flag : Option String) (flagSource : Option Source)
    (config : Option String) (default : String) :
    (pick key flag flagSource config default).key = key ∧
      (pick key flag flagSource config default).compared =
        (flag <|> config).getD default := by
  cases flag with
  | some flag => exact ⟨rfl, rfl⟩
  | none =>
      cases config with
      | some config => exact ⟨rfl, rfl⟩
      | none => exact ⟨rfl, rfl⟩

theorem differs_of_eq {running : Entry} {wanted : Asked} (h : wanted.value = running.compared) :
    Server.differs running wanted = false := by
  simp [Server.differs, h]

def Entry.asks (entry : Entry) : Asked :=
  { value := entry.compared, chosen := entry.source ≠ Source.default }

theorem lookup_asks {entries : List Entry} (hkeys : (entries.map Entry.key).Nodup)
    {entry : Entry} (h : entry ∈ entries) :
    (entries.map fun entry => (entry.key, entry.asks)).lookup entry.key = some entry.asks := by
  induction entries with
  | nil => exact absurd h List.not_mem_nil
  | cons first rest ih =>
      rw [List.map_cons, List.nodup_cons] at hkeys
      rw [List.map_cons, List.lookup_cons]
      cases List.mem_cons.mp h with
      | inl hfirst => simp [hfirst]
      | inr hrest =>
          have hne : (entry.key == first.key) = false := by
            rw [beq_eq_false_iff_ne]
            exact fun hsame => hkeys.1 (hsame ▸ List.mem_map.mpr ⟨entry, hrest, rfl⟩)
          rw [hne]
          exact ih hkeys.2 hrest

theorem mismatch_eq_none_iff {running asking : Server}
    (hkeys : running.entries.map Entry.key = asking.entries.map Entry.key)
    (hapart : (asking.entries.map Entry.key).Nodup) :
    running.mismatch asking.asked = none <->
      List.Forall₂ (fun here wanted => Server.differs here wanted.asks = false)
        running.entries asking.entries := by
  have hlength : running.entries.length = asking.entries.length := by
    simpa using congrArg List.length hkeys
  have hlookup : forall i (hi : i < running.entries.length) (hj : i < asking.entries.length),
      asking.asked.lookup running.entries[i].key = some asking.entries[i].asks := by
    intro i hi hj
    have hkey : running.entries[i].key = asking.entries[i].key := by
      have hat : (running.entries.map Entry.key)[i]? = (asking.entries.map Entry.key)[i]? := by
        rw [hkeys]
      simpa [hi, hj] using hat
    rw [hkey]
    exact lookup_asks hapart (List.getElem_mem hj)
  have hnone : running.mismatch asking.asked = none <->
      forall here, here ∈ running.entries ->
        ((asking.asked.lookup here.key).bind fun wanted =>
          if Server.differs here wanted then some (Server.difference here wanted)
          else none) = none := by
    rw [← List.filterMap_eq_nil_iff]
    unfold Server.mismatch
    by_cases hnil : (running.entries.filterMap fun here =>
        (asking.asked.lookup here.key).bind fun wanted =>
          if Server.differs here wanted then some (Server.difference here wanted)
          else none) = []
    · simp [hnil]
    · simp [hnil]
  rw [hnone, List.forall₂_iff_get]
  constructor
  · intro h
    constructor
    · exact hlength
    · intro i hi hj
      have hhere := h _ (List.getElem_mem hi)
      rw [hlookup i hi hj] at hhere
      simpa using hhere
  · intro h here hmem
    obtain ⟨i, hi, rfl⟩ := List.getElem_of_mem hmem
    rw [hlookup i hi (hlength ▸ hi)]
    have hsame := h.2 i hi (hlength ▸ hi)
    simp only [List.get_eq_getElem] at hsame
    simp [hsame]

theorem keys_settled (given : Matches) (located : Located) :
    (settled machine given located).entries.map Entry.key =
      ["device", "inference_threads", "ep_libraries", "prepared", "fused_attention",
        "split_embeddings", "model_idle", "open_indexes", "jit", "postgres_dir",
        "models_dir"] := by
  have hkept : forall entry : Entry, (Entry.key ∘ Entry.shown machine located.epLibraries
      located.postgresDir (located.modelsDir machine)) entry = entry.key :=
    fun entry => (shown_kept _ _ _ entry).1
  unfold settled
  simp only [List.map_map]
  rw [List.map_congr_left fun entry _ => hkept entry]
  simp only [entriesOf, List.map_cons, List.map_nil, pick_kept]

theorem differs_shown {epLibraries epLibraries' : List Path} {postgresDir postgresDir' : Option Path}
    {modelsDir modelsDir' : Path} (here wanted : Entry) :
    Server.differs (Entry.shown machine epLibraries postgresDir modelsDir here)
        (Entry.shown machine epLibraries' postgresDir' modelsDir' wanted).asks =
      Server.differs here wanted.asks := by
  obtain ⟨_, hcompared, hsource⟩ :=
    @shown_kept machine epLibraries postgresDir modelsDir here
  obtain ⟨_, hcompared', hsource'⟩ :=
    @shown_kept machine epLibraries' postgresDir' modelsDir' wanted
  unfold Server.differs Entry.asks
  rw [hcompared, hcompared', hsource, hsource']

theorem differs_pick (key : String) (flag config : Option String) (default : String)
    (here wanted : Option Source) :
    Server.differs (pick key flag here config default)
      (pick key flag wanted config default).asks = false := by
  apply differs_of_eq
  exact (pick_kept _ _ _ _ _).2.trans (pick_kept _ _ _ _ _).2.symm

theorem mismatch_models_iff (args : ServerArgs) (modelsDir : Option Path)
    (here wanted : String -> Option Source) (asking : Located) (flagModels : Option Path) :
    (settled machine { args := { args with modelsDir := modelsDir }, given := here }
        { asking with flagModels := flagModels }).mismatch
      (settled machine { args := args, given := wanted } asking).asked = none <->
      Server.differs
        (pick "models_dir" (flagModels.map spelledPath) (here "models_dir")
          (asking.fileModels.map spelledPath) (spelledPath machine.modelsDir))
        (pick "models_dir" (asking.flagModels.map spelledPath) (wanted "models_dir")
          (asking.fileModels.map spelledPath) (spelledPath machine.modelsDir)).asks = false := by
  rw [mismatch_eq_none_iff]
  · simp only [settled, entriesOf, List.map_cons, List.map_nil, List.forall₂_cons,
      differs_shown, differs_pick, true_and, List.Forall₂.nil, and_true]
  · rw [keys_settled, keys_settled]
  · rw [keys_settled]
    decide

/-!
## What is found again
-/

theorem checkInstallation_given (here there : Option Source) (dir : Option Path) :
    checkInstallation machine here dir = Except.ok () <->
      checkInstallation machine there dir = Except.ok () := by
  unfold checkInstallation
  cases dir.bind fun dir => (machine.installationMissing dir).map fun missing =>
      (dir, missing) with
  | none => simp
  | some pair => simp

theorem locate_ok {args : ServerArgs} {modelsDir flagModels : Option Path}
    {wanted : String -> Option Source} (here : String -> Option Source) {asking : Located}
    (h : locate machine root { args := args, given := wanted } = Except.ok asking)
    (hmodels : modelsDir.mapM (fun path => anchored machine path none) =
      Except.ok flagModels) :
    locate machine root { args := { args with modelsDir := modelsDir }, given := here } =
      Except.ok { asking with flagModels := flagModels } := by
  unfold locate at h ⊢
  simp only [bind_eq_ok] at h ⊢
  obtain ⟨serve, hserve, device, hdevice, flagLibraries, hflagLibraries, fileLibraries,
    hfileLibraries, flagPostgres, hflagPostgres, filePostgres, hfilePostgres, _, hcheck,
    asked, hasked, fileModels, hfileModels, hlocated⟩ := h
  cases hlocated
  exact ⟨serve, hserve, device, hdevice, flagLibraries, hflagLibraries, fileLibraries,
    hfileLibraries, flagPostgres, hflagPostgres, filePostgres, hfilePostgres, (),
    (checkInstallation_given _ _ _).mp hcheck, flagModels, hmodels, fileModels, hfileModels,
    rfl⟩

theorem models_of_locate {args : ServerArgs} {wanted : String -> Option Source}
    {asking : Located}
    (h : locate machine root { args := args, given := wanted } = Except.ok asking) :
    machine.read (join root (osString CONFIG)) = Except.ok asking.serve ∧
      args.modelsDir.mapM (fun path => anchored machine path none) =
        Except.ok asking.flagModels ∧
      asking.serve.modelsDir.mapM (fun path => anchored machine path (some root)) =
        Except.ok asking.fileModels := by
  unfold locate at h
  simp only [bind_eq_ok] at h
  obtain ⟨serve, hserve, device, _, flagLibraries, _, fileLibraries, _, flagPostgres, _,
    filePostgres, _, _, _, flagModels, hflagModels, fileModels, hfileModels, hlocated⟩ := h
  cases hlocated
  exact ⟨hserve, hflagModels, hfileModels⟩

theorem matched_ok {line : ServerArgs} {asked : Matches}
    (h : matched machine line = Except.ok asked) :
    fallback line.device machine.deviceVar parseDevice = Except.ok asked.args.device ∧
      fallback line.modelsDir machine.modelsDirVar parsePath =
        Except.ok asked.args.modelsDir ∧
      asked.given "models_dir" = flagOr line.modelsDir asked.args.modelsDir ∧
      asked.args = { line with
        device := asked.args.device, modelsDir := asked.args.modelsDir } := by
  unfold matched at h
  simp only [bind_eq_ok] at h
  obtain ⟨device, hdevice, modelsDir, hmodels, hasked⟩ := h
  cases hasked
  exact ⟨hdevice, hmodels, rfl, rfl⟩

theorem fallback_again {flag given : Option DeviceChoice} {fromEnv : Option OsString}
    (h : fallback flag fromEnv parseDevice = Except.ok given) :
    fallback given fromEnv parseDevice = Except.ok given := by
  cases given with
  | some device => rfl
  | none =>
      cases flag with
      | some device => cases h
      | none => exact h

theorem matched_forwarded {line : ServerArgs} {asked : Matches}
    (h : matched machine line = Except.ok asked) {modelsDir : Option Path}
    (hmodels : fallback none machine.modelsDirVar parsePath = Except.ok modelsDir) :
    exists given : String -> Option Source,
      matched machine { asked.args with modelsDir := none } =
        Except.ok { args := { asked.args with modelsDir := modelsDir }, given := given } := by
  have hdevice := fallback_again (matched_ok h).1
  unfold matched
  simp only [hdevice, hmodels]
  exact ⟨_, rfl⟩

end Matching

section Answering

variable {clap : Clap} {machine : Machine} {root : Path} {line : ServerArgs} {asked : Matches}
  {asking : Located}

theorem modelsDirUnflagged_eq {modelsDir flagModels : Option Path}
    (hserve : machine.read (join root (osString CONFIG)) = Except.ok asking.serve)
    (hmodels : fallback none machine.modelsDirVar parsePath = Except.ok modelsDir)
    (hflag : modelsDir.mapM (fun path => anchored machine path none) = Except.ok flagModels)
    (hfile : asking.serve.modelsDir.mapM (fun path => anchored machine path (some root)) =
      Except.ok asking.fileModels) :
    modelsDirUnflagged machine root =
      Except.ok ((flagModels <|> asking.fileModels).getD machine.modelsDir) := by
  unfold modelsDirUnflagged
  simp only [bind_eq_ok]
  exact ⟨asking.serve, hserve, modelsDir, hmodels, flagModels, hflag, asking.fileModels, hfile,
    rfl⟩

theorem anchored_of_mapM {path : Path} {flagModels : Option Path}
    (h : (some path).mapM (fun path => anchored machine path none) = Except.ok flagModels) :
    exists named, anchored machine path none = Except.ok named ∧ flagModels = some named := by
  cases hanchored : anchored machine path none with
  | error e =>
      rw [Option.mapM_some, hanchored] at h
      cases h
  | ok named =>
      rw [Option.mapM_some, hanchored] at h
      exact ⟨named, rfl, (Except.ok.inj h).symm⟩

theorem differs_models_iff {flagModels : Option Path} {here : Option Source}
    (hmatches : matched machine line = Except.ok asked)
    (hlocate : locate machine root asked = Except.ok asking)
    (hunflagged : modelsDirUnflagged machine root =
      Except.ok ((flagModels <|> asking.fileModels).getD machine.modelsDir))
    (hsame : line.modelsDir = none -> flagModels = asking.flagModels) :
    Server.differs
        (pick "models_dir" (flagModels.map spelledPath) here
          (asking.fileModels.map spelledPath) (spelledPath machine.modelsDir))
        (pick "models_dir" (asking.flagModels.map spelledPath) (asked.given "models_dir")
          (asking.fileModels.map spelledPath) (spelledPath machine.modelsDir)).asks = false <->
      forall flag, line.modelsDir = some flag ->
        anchored machine flag none = modelsDirUnflagged machine root := by
  cases hline : line.modelsDir with
  | none =>
      rw [hsame hline, differs_pick]
      simp
  | some flag =>
      obtain ⟨_, hmodels, hgiven, _⟩ := matched_ok hmatches
      rw [hline, fallback, Except.ok.injEq] at hmodels
      obtain ⟨_, hflag, _⟩ := models_of_locate hlocate
      rw [← hmodels] at hflag
      obtain ⟨named, hnamed, hfound⟩ := anchored_of_mapM hflag
      have hrunning : (pick "models_dir" (flagModels.map spelledPath) here
          (asking.fileModels.map spelledPath) (spelledPath machine.modelsDir)).compared =
            spelledPath ((flagModels <|> asking.fileModels).getD machine.modelsDir) := by
        rw [(pick_kept _ _ _ _ _).2]
        cases flagModels with
        | some path => rfl
        | none =>
            cases asking.fileModels with
            | some path => rfl
            | none => rfl
      have hwanted : (pick "models_dir" (asking.flagModels.map spelledPath)
          (asked.given "models_dir") (asking.fileModels.map spelledPath)
            (spelledPath machine.modelsDir)).asks =
              { value := spelledPath named, chosen := true } := by
        rw [hfound, hgiven, hline]
        rfl
      rw [hwanted, Server.differs, hrunning]
      simp only [Bool.not_true, Bool.false_and, Bool.not_false, Bool.and_true,
        decide_eq_false_iff_not, ne_eq, not_not, spelledPath_injective.eq_iff]
      constructor
      · intro hsame flag' hflag'
        cases hflag'
        rw [hnamed, hunflagged, hsame]
      · intro hall
        have hanchored := hall flag rfl
        rw [hnamed, hunflagged, Except.ok.injEq] at hanchored
        exact hanchored

theorem resolve_ok {given : Matches} {server : Server}
    (h : resolve machine root given = Except.ok server) :
    exists located, locate machine root given = Except.ok located ∧
      server = settled machine given located := by
  unfold resolve at h
  cases hlocate : locate machine root given with
  | error e =>
      rw [hlocate] at h
      cases h
  | ok located =>
      rw [hlocate] at h
      exact ⟨located, rfl, (Except.ok.inj h).symm⟩

theorem started_iff (hmatches : matched machine line = Except.ok asked)
    (hlocate : locate machine root asked = Except.ok asking) {running : Server} :
    started clap machine root (forwarded asked.args) = Except.ok running <->
      Forwardable asked.args ∧ exists modelsDir flagModels given,
        fallback none machine.modelsDirVar parsePath = Except.ok modelsDir ∧
        modelsDir.mapM (fun path => anchored machine path none) = Except.ok flagModels ∧
        matched machine { asked.args with modelsDir := none } =
          Except.ok { args := { asked.args with modelsDir := modelsDir }, given := given } ∧
        running =
          settled machine { args := { asked.args with modelsDir := modelsDir }, given := given }
            { asking with flagModels := flagModels } := by
  obtain ⟨args, wanted⟩ := asked
  constructor
  · intro h
    unfold started at h
    simp only [bind_eq_ok] at h
    obtain ⟨read, hread, given, hgiven, hresolve⟩ := h
    have hforwardable := forwardable_of_read hread
    rw [read_forwarded hforwardable, Except.ok.injEq] at hread
    subst hread
    obtain ⟨_, hmodels, _, _⟩ := matched_ok hgiven
    obtain ⟨here, hhere⟩ := matched_forwarded hmatches hmodels
    rw [hhere, Except.ok.injEq] at hgiven
    obtain ⟨located, hlocated, hrunning⟩ := resolve_ok hresolve
    rw [← hgiven] at hlocated hrunning
    obtain ⟨_, hflag, _⟩ := models_of_locate hlocated
    have hagain := locate_ok here hlocate hflag
    rw [hlocated, Except.ok.injEq] at hagain
    exact ⟨hforwardable, given.args.modelsDir, located.flagModels, here, hmodels, hflag, hhere,
      hrunning.trans (congrArg _ hagain)⟩
  · intro h
    obtain ⟨hforwardable, modelsDir, flagModels, given, hmodels, hflag, hgiven, rfl⟩ := h
    unfold started
    simp only [bind_eq_ok]
    have hresolve : resolve machine root
        { args := { args with modelsDir := modelsDir }, given := given } =
          Except.ok (settled machine
            { args := { args with modelsDir := modelsDir }, given := given }
            { asking with flagModels := flagModels }) := by
      unfold resolve
      rw [locate_ok given hlocate hflag]
      rfl
    exact ⟨_, read_forwarded hforwardable, _, hgiven, hresolve⟩

theorem found_again (hmatches : matched machine line = Except.ok asked)
    (hlocate : locate machine root asked = Except.ok asking)
    (hagrees : forall flag, line.modelsDir = some flag ->
      anchored machine flag none = modelsDirUnflagged machine root) :
    exists modelsDir flagModels,
      fallback none machine.modelsDirVar parsePath = Except.ok modelsDir ∧
        modelsDir.mapM (fun path => anchored machine path none) = Except.ok flagModels := by
  obtain ⟨_, hline, _, _⟩ := matched_ok hmatches
  obtain ⟨_, hflagged, _⟩ := models_of_locate hlocate
  cases hnamed : line.modelsDir with
  | none =>
      rw [hnamed] at hline
      exact ⟨_, _, hline, hflagged⟩
  | some flag =>
      rw [hnamed, fallback, Except.ok.injEq] at hline
      rw [← hline] at hflagged
      obtain ⟨named, hanchored, _⟩ := anchored_of_mapM hflagged
      have hunflagged := hagrees flag hnamed
      rw [hanchored, modelsDirUnflagged] at hunflagged
      obtain ⟨_, _, hfound⟩ := bind_eq_ok.mp hunflagged.symm
      obtain ⟨modelsDir, hmodels, hfound⟩ := bind_eq_ok.mp hfound
      obtain ⟨flagModels, hflag, _⟩ := bind_eq_ok.mp hfound
      exact ⟨modelsDir, flagModels, hmodels, hflag⟩

/--
The server a command starts answers it exactly when each path forwarded can be written as the
value of a flag, and a models directory named by a flag is the one that the server would come
to without it.
-/
theorem started_server_answers_iff (clap : Clap) (machine : Machine) (root : Path)
    {line : ServerArgs} {asked : Matches} {asking : Server}
    (hmatches : matched machine line = Except.ok asked)
    (hasking : resolve machine root asked = Except.ok asking) :
    (exists running, started clap machine root (forwarded asked.args) = Except.ok running ∧
        running.mismatch asking.asked = none) <->
      Forwardable asked.args ∧ forall flag, line.modelsDir = some flag ->
        anchored machine flag none = modelsDirUnflagged machine root := by
  obtain ⟨located, hlocate, rfl⟩ := resolve_ok hasking
  obtain ⟨hserve, hflagged, hfile⟩ := models_of_locate hlocate
  obtain ⟨_, hline, _, _⟩ := matched_ok hmatches
  have hsame : forall {modelsDir flagModels}, line.modelsDir = none ->
      fallback none machine.modelsDirVar parsePath = Except.ok modelsDir ->
        modelsDir.mapM (fun path => anchored machine path none) = Except.ok flagModels ->
          flagModels = located.flagModels := by
    intro modelsDir flagModels hnone hmodels hflag
    rw [hnone, hmodels, Except.ok.injEq] at hline
    rw [hline, hflagged, Except.ok.injEq] at hflag
    exact hflag.symm
  constructor
  · intro h
    obtain ⟨running, hstarted, hmismatch⟩ := h
    obtain ⟨hforwardable, modelsDir, flagModels, given, hmodels, hflag, hgiven, rfl⟩ :=
      (started_iff hmatches hlocate).mp hstarted
    rw [mismatch_models_iff] at hmismatch
    constructor
    · exact hforwardable
    · exact (differs_models_iff hmatches hlocate
        (modelsDirUnflagged_eq hserve hmodels hflag hfile)
        fun hnone => hsame hnone hmodels hflag).mp hmismatch
  · intro h
    obtain ⟨hforwardable, hagrees⟩ := h
    obtain ⟨modelsDir, flagModels, hmodels, hflag⟩ := found_again hmatches hlocate hagrees
    obtain ⟨given, hgiven⟩ := matched_forwarded hmatches hmodels
    refine ⟨_, (started_iff hmatches hlocate).mpr
      ⟨hforwardable, modelsDir, flagModels, given, hmodels, hflag, hgiven, rfl⟩, ?_⟩
    rw [mismatch_models_iff]
    exact (differs_models_iff hmatches hlocate
      (modelsDirUnflagged_eq hserve hmodels hflag hfile)
      fun hnone => hsame hnone hmodels hflag).mpr hagrees

end Answering

/-!
# A models directory named by a flag
-/

section Named

def readPairs : List OsString -> Option (List (String × OsString))
  | [] => some []
  | [_] => none
  | name :: value :: rest =>
      match (toStr name).bind fun name => name.toList.dropPrefix? "--".toList with
      | none => none
      | some given =>
          if looksLikeFlag value then none
          else (readPairs rest).map fun pairs => (String.ofList given, value) :: pairs

theorem readPairs_written {pairs : List (String × OsString)} :
    readPairs (written pairs) =
      if pairs.all fun pair => !looksLikeFlag pair.2 then some pairs else none := by
  induction pairs with
  | nil => rfl
  | cons pair rest ih =>
      have hname : (toStr (osString ("--" ++ pair.1))).bind
          (fun name => name.toList.dropPrefix? "--".toList) = some pair.1.toList := by
        rw [toStr_osString, Option.bind_some, List.dropPrefix?_eq_some_iff]
        exact ⟨"--".toList, by simp, by simp⟩
      change readPairs (osString ("--" ++ pair.1) :: pair.2 :: written rest) = _
      rw [readPairs, hname]
      cases hflag : looksLikeFlag pair.2 with
      | true => simp [hflag]
      | false =>
          by_cases hall : (rest.all fun pair => !looksLikeFlag pair.2) = true
          · simp only [Bool.false_eq_true, if_false, ih, hall, if_true, Option.map_some,
              String.ofList_toList, List.all_cons, hflag, Bool.not_false, Bool.and_self]
          · simp [ih, hall]

def readBool (text : String) : Option Bool :=
  if text = "true" then some true else if text = "false" then some false else none

def readLine (arguments : List OsString) : Except String ServerArgs :=
  match readPairs arguments with
  | none => Except.error "unexpected argument"
  | some pairs =>
      match pairs.foldlM (setFlag readBool) ServerArgs.none with
      | none => Except.error "invalid value"
      | some args =>
          if ((pairs.map Prod.fst).filter fun name => name ≠ "ep-library").Nodup then
            Except.ok args
          else
            Except.error "the argument cannot be used multiple times"

def pairwise : Clap where
  boolish := readBool
  boolish_true := rfl
  boolish_false := rfl
  read := readLine
  reads := by
    intro pairs args hvalues hnames hfold
    have hall : (pairs.all fun pair => !looksLikeFlag pair.2) = true := by
      simpa using hvalues
    unfold readLine
    rw [readPairs_written, if_pos hall]
    simp only [hfold, hnames, if_true]
  needsValue := by
    intro pairs pair hpair hflag
    have hall : ¬(pairs.all fun pair => !looksLikeFlag pair.2) = true := by
      intro hall
      have hvalue := List.all_eq_true.mp hall pair hpair
      rw [hflag] at hvalue
      cases hvalue
    unfold readLine
    rw [readPairs_written, if_neg hall]
    exact ⟨_, rfl⟩
  validates := by
    intro pairs hfold
    unfold readLine
    rw [readPairs_written]
    by_cases hall : (pairs.all fun pair => !looksLikeFlag pair.2) = true
    · rw [if_pos hall]
      simp only [hfold]
      exact ⟨_, rfl⟩
    · rw [if_neg hall]
      exact ⟨_, rfl⟩

def plainMachine : Machine where
  deviceVar := none
  modelsDirVar := none
  absolute := fun path => Except.ok path
  installationMissing := fun _ => none
  modelsDir := osString "/home/u/.cache/pamin/models"
  read := fun _ => Except.ok
    { device := none, inferenceThreads := none, epLibraries := none, prepared := none
      modelIdle := none, openIndexes := none, jit := none, postgresDir := none
      modelsDir := none }
  json := fun texts => ",".intercalate texts

/-- A library, a directory for the database, and the models directory that is the default. -/
def pathsGiven : ServerArgs :=
  { ServerArgs.none with
    epLibraries := [osString "/opt/ep.so"]
    jit := some true
    postgresDir := some (osString "/var/pg")
    modelsDir := some (osString "/home/u/.cache/pamin/models") }

theorem started_server_answers_paths :
    exists asked asking,
      matched plainMachine pathsGiven = Except.ok asked ∧
        resolve plainMachine (osString "/w") asked = Except.ok asking ∧
          exists running, started pairwise plainMachine (osString "/w")
            (forwarded asked.args) = Except.ok running ∧
              running.mismatch asking.asked = none := by
  have hanswers := @started_server_answers_iff pairwise plainMachine (osString "/w") pathsGiven
    _ _ rfl rfl
  refine ⟨_, _, rfl, rfl, hanswers.mpr ⟨⟨?_, ?_⟩, ?_⟩⟩
  · intro path hpath
    rw [List.mem_singleton.mp hpath]
    exact ⟨by decide, by decide⟩
  · intro path hpath
    rw [← Option.some.inj hpath]
    exact ⟨by decide, by decide⟩
  · intro flag hflag
    rw [← Option.some.inj hflag]
    rfl

/-- `--models-dir /m` is not forwarded, and the server started runs with another directory. -/
theorem models_dir_is_not_forwarded :
    exists (clap : Clap) (machine : Machine) (root : Path) (line : ServerArgs)
      (asked : Matches) (asking running : Server),
      matched machine line = Except.ok asked ∧ resolve machine root asked = Except.ok asking ∧
        started clap machine root (forwarded asked.args) = Except.ok running ∧
          running.mismatch asking.asked ≠ none := by
  refine ⟨pairwise, plainMachine, osString "/w",
    { ServerArgs.none with modelsDir := some (osString "/m") }, _, _, _, rfl, rfl, rfl, ?_⟩
  decide

end Named

end Settings
end PaminMemory
