import PaminMemory.Foundation.Latest
import PaminMemory.Topics.Naming

/-!
# Who a name finds

Topics are created under a name, and renames leave the name a topic had as an alias.  A name
finds the topic that held it last, whatever creations and renames came after.
-/

namespace PaminMemory
namespace Topics

open Foundation

/-- A creation, a source filed at a locator, or a rename. -/
inductive NameAct where
  | create (now : Instant) (id : TopicId) (name : String) (named : Option (String × Nat))
  | file (kind : SourceKind) (locator : String) (id : SourceId)
  | rename (now : Instant) (names : String × String) (locators : String × String)
      (job : IndexJobId)

/-- The store after an act.  A statement that draws the identifier of another topic fails; a
rename locks its topic first. -/
def act (project : ProjectId) (store : Store) : NameAct -> Store
  | NameAct.create now id name named =>
      if store.topics.any fun topic => topic.id = id then
        store
      else
        (createTopic now id name named store).1
  | NameAct.file kind locator id => (ensureSourceCreated kind locator id store).1
  | NameAct.rename now names locators job =>
      match lockTopic names.1 store with
      | none => store
      | some locked => (renameTopic now project locked.topic names locators job store).1

def actAll (project : ProjectId) (acts : List NameAct) : Store :=
  acts.foldl (act project) Store.empty

def holder (store : Store) (name : String) : Option TopicId := lookFor name store

def aliasOf (store : Store) (name : String) : Option TopicId :=
  (store.aliases.find? fun row => row.name = name).map TopicAlias.topicId

def found (store : Store) (name : String) : Option TopicId :=
  (findTopic name store).map Topic.id

/-- No two topics have one identifier or one name, and every alias is of a topic. -/
structure Distinct (store : Store) : Prop where
  ids : (store.titles.map Prod.fst).Nodup
  names : (store.titles.map Prod.snd).Nodup
  owned : forall row, row ∈ store.aliases -> row.topicId ∈ store.titles.map Prod.fst

inductive Renamed (store t : Store) : Prop where
  | same (titles : t.titles = store.titles) (aliases : t.aliases = store.aliases)
  | created (id : TopicId) (name : String) (newId : id ∉ store.titles.map Prod.fst)
      (newName : name ∉ store.titles.map Prod.snd)
      (titles : t.titles = store.titles ++ [(id, name)]) (aliases : t.aliases = store.aliases)
  | renamed (id : TopicId) (before after : String) (now : Instant)
      (there : (id, before) ∈ store.titles) (free : after ∉ store.titles.map Prod.snd)
      (titles : t.titles = store.titles.map fun title =>
        if title.1 = id then (id, after) else title)
      (aliases : t.aliases =
        ((store.aliases.filter fun row => row.name ≠ after).filter fun row =>
          row.name ≠ before) ++ [{ name := before, topicId := id, renamedAt := now }])

section Acts

variable {project : ProjectId} {store t : Store}

theorem renameTopic_taken {now : Instant} {topic : TopicId} {names locators : String × String}
    {job : IndexJobId}
    (h : names.2 ∈ store.titles.map Prod.snd ∨ sourceAt locators.2 store = true) :
    renameTopic now project topic names locators job store = (store, false) := by
  unfold renameTopic
  rw [if_pos]
  rw [Bool.or_eq_true]
  rcases h with hname | hlocator
  · left
    rw [Store.titles, List.map_map] at hname
    rcases List.mem_map.mp hname with ⟨row, hrow, hheld⟩
    exact List.any_eq_true.mpr ⟨row, hrow, decide_eq_true hheld⟩
  · exact Or.inr hlocator

theorem lockTopic_there {name : String} {locked : LockedTopic}
    (h : lockTopic name store = some locked) : (locked.topic, name) ∈ store.titles := by
  rcases Option.map_eq_some_iff.mp h with ⟨row, hrow, rfl⟩
  have hname : row.name = name := by simpa using List.find?_some hrow
  rw [← hname]
  exact List.mem_map_of_mem (List.mem_of_find?_eq_some hrow)

theorem createTopic_renamed (now : Instant) {id : TopicId} (name : String)
    (named : Option (String × Nat)) (hid : id ∉ store.titles.map Prod.fst) :
    Renamed store (createTopic now id name named store).1 := by
  cases hlock : lockTopic name store with
  | some locked =>
      unfold createTopic
      rw [hlock]
      exact Renamed.same rfl rfl
  | none =>
      unfold createTopic
      rw [hlock]
      apply Renamed.created id name hid (lookFor_none.mp (lockTopic_none.mp hlock))
      · unfold Store.titles
        rw [List.map_append]
        rfl
      · rfl

theorem renameTopic_renamed (now : Instant) {topic : TopicId} {names : String × String}
    (locators : String × String) (job : IndexJobId)
    (hthere : (topic, names.1) ∈ store.titles) :
    Renamed store (renameTopic now project topic names locators job store).1 := by
  by_cases hfree : names.2 ∈ store.titles.map Prod.snd ∨ sourceAt locators.2 store = true
  · rw [renameTopic_taken hfree]
    exact Renamed.same rfl rfl
  · rw [not_or] at hfree
    have htaken : ((store.topics.any fun row => row.name = names.2) ||
        sourceAt locators.2 store) = false := by
      rw [Bool.or_eq_false_iff, List.any_eq_false]
      refine ⟨?_, eq_false_of_ne_true hfree.2⟩
      intro row hrow hname
      apply hfree.1
      rw [← of_decide_eq_true hname]
      exact List.mem_map_of_mem (f := Prod.snd) (List.mem_map_of_mem hrow)
    apply Renamed.renamed topic names.1 names.2 now hthere hfree.1
    · unfold renameTopic Store.titles
      rw [htaken]
      simp only [Bool.false_eq_true, if_false, List.map_map]
      apply List.map_congr_left
      intro row _
      by_cases hsame : row.id = topic
      · simp [Topic.title, hsame]
      · simp [Topic.title, hsame]
    · unfold renameTopic
      rw [htaken]
      rfl

theorem act_renamed (project : ProjectId) (store : Store) (a : NameAct) :
    Renamed store (act project store a) := by
  cases a with
  | create now id name named =>
      cases hdrawn : store.topics.any fun topic => topic.id = id with
      | true =>
          rw [show act project store (NameAct.create now id name named) = store from
            if_pos hdrawn]
          exact Renamed.same rfl rfl
      | false =>
          have hid : id ∉ store.titles.map Prod.fst := by
            intro hmem
            rw [Store.titles, List.map_map] at hmem
            rcases List.mem_map.mp hmem with ⟨row, hrow, hsame⟩
            exact List.any_eq_false.mp hdrawn row hrow (decide_eq_true hsame)
          rw [show act project store (NameAct.create now id name named) =
            (createTopic now id name named store).1 from if_neg (by simp [hdrawn])]
          exact createTopic_renamed now name named hid
  | file kind locator id =>
      show Renamed store (ensureSourceCreated kind locator id store).1
      unfold ensureSourceCreated
      cases store.sources.find? fun source => source.locator = locator with
      | none => exact Renamed.same rfl rfl
      | some source => exact Renamed.same rfl rfl
  | rename now names locators job =>
      cases hlock : lockTopic names.1 store with
      | none =>
          have hsame : act project store (NameAct.rename now names locators job) = store := by
            simp only [act, hlock]
          rw [hsame]
          exact Renamed.same rfl rfl
      | some locked =>
          have hrenamed : act project store (NameAct.rename now names locators job) =
              (renameTopic now project locked.topic names locators job store).1 := by
            simp only [act, hlock]
          rw [hrenamed]
          exact renameTopic_renamed now locators job (lockTopic_there hlock)

/-!
## Names stay apart
-/

theorem distinct_empty : Distinct Store.empty where
  ids := List.nodup_nil
  names := List.nodup_nil
  owned _ h := nomatch h

theorem name_of_id (h : Distinct store) {id : TopicId} {name other : String}
    (hname : (id, name) ∈ store.titles) (hother : (id, other) ∈ store.titles) : name = other :=
  congrArg Prod.snd (List.inj_on_of_nodup_map h.ids hname hother rfl)

theorem lookFor_iff (h : Distinct store) {id : TopicId} {name : String} :
    lookFor name store = some id <-> (id, name) ∈ store.titles := by
  constructor
  · exact lookFor_some
  · intro hmem
    cases hlook : lookFor name store with
    | none => exact absurd (List.mem_map_of_mem (f := Prod.snd) hmem) (lookFor_none.mp hlook)
    | some other =>
        have hsame := List.inj_on_of_nodup_map h.names (lookFor_some hlook) hmem rfl
        exact congrArg some (congrArg Prod.fst hsame)

theorem ids_renamed (titles : List (TopicId × String)) (id : TopicId) (after : String) :
    (titles.map fun title => if title.1 = id then (id, after) else title).map Prod.fst =
      titles.map Prod.fst := by
  rw [List.map_map]
  apply List.map_congr_left
  intro title _
  rw [Function.comp_apply]
  split
  · next hsame => exact hsame.symm
  · rfl

theorem distinct_renamed (h : Distinct store) (hrenamed : Renamed store t) : Distinct t := by
  cases hrenamed with
  | same titles aliases =>
      constructor
      case ids => exact titles ▸ h.ids
      case names => exact titles ▸ h.names
      case owned =>
        rw [titles, aliases]
        exact h.owned
  | created id name newId newName titles aliases =>
      constructor
      case ids =>
        rw [titles, List.map_append, List.nodup_append]
        refine ⟨h.ids, List.nodup_singleton id, ?_⟩
        intro old hold new hnew hsame
        rw [hsame, List.mem_singleton.mp hnew] at hold
        exact newId hold
      case names =>
        rw [titles, List.map_append, List.nodup_append]
        refine ⟨h.names, List.nodup_singleton name, ?_⟩
        intro old hold new hnew hsame
        rw [hsame, List.mem_singleton.mp hnew] at hold
        exact newName hold
      case owned =>
        intro row hrow
        rw [aliases] at hrow
        rw [titles, List.map_append]
        exact List.mem_append_left _ (h.owned row hrow)
  | renamed id before after now there free titles aliases =>
      have hids : t.titles.map Prod.fst = store.titles.map Prod.fst := by
        rw [titles, ids_renamed]
      constructor
      case ids =>
        rw [hids]
        exact h.ids
      case names =>
        rw [titles]
        have hrows : store.titles.Nodup := List.Nodup.of_map Prod.fst h.ids
        rw [List.map_map]
        apply List.Nodup.map_on ?_ hrows
        intro left hleft right hright hsame
        have hfree : forall title, title ∈ store.titles -> title.2 ≠ after := by
          intro title htitle heq
          exact free (heq ▸ List.mem_map_of_mem htitle)
        rw [Function.comp_apply, Function.comp_apply] at hsame
        split at hsame
        · next hone =>
            split at hsame
            · next hother =>
                exact List.inj_on_of_nodup_map h.ids hleft hright (hone.trans hother.symm)
            · exact absurd hsame.symm (hfree right hright)
        · split at hsame
          · exact absurd hsame (hfree left hleft)
          · exact List.inj_on_of_nodup_map h.names hleft hright hsame
      case owned =>
        intro row hrow
        rw [hids]
        rw [aliases] at hrow
        rcases List.mem_append.mp hrow with hold | hnew
        · exact h.owned row (List.mem_filter.mp (List.mem_filter.mp hold).1).1
        · rw [List.mem_singleton.mp hnew]
          exact List.mem_map_of_mem (f := Prod.fst) there

/-!
## What a name finds
-/

theorem found_eq (h : Distinct store) (name : String) :
    found store name = (holder store name).or (aliasOf store name) := by
  unfold found findTopic holder lookFor aliasOf
  cases hnow : store.topics.find? fun topic => topic.name = name with
  | some topic => rfl
  | none =>
      cases halias : store.aliases.find? fun row => row.name = name with
      | none => rfl
      | some row =>
          have howned := h.owned row (List.mem_of_find?_eq_some halias)
          rw [Store.titles, List.map_map] at howned
          rcases List.mem_map.mp howned with ⟨topic, htopic, hid⟩
          cases hfind : store.topics.find? fun topic => topic.id = row.topicId with
          | none => exact absurd (decide_eq_true hid) (List.find?_eq_none.mp hfind topic htopic)
          | some owner =>
              have howner : owner.id = row.topicId := by simpa using List.find?_some hfind
              simp [hfind, howner]

theorem aliasOf_renamed {id : TopicId} {before after : String} {now : Instant}
    (aliases : t.aliases =
      ((store.aliases.filter fun row => row.name ≠ after).filter fun row =>
        row.name ≠ before) ++ [{ name := before, topicId := id, renamedAt := now }])
    {name : String} (hafter : name ≠ after) :
    aliasOf t name = if name = before then some id else aliasOf store name := by
  unfold aliasOf
  rw [aliases, List.find?_append]
  split
  · next hbefore =>
      subst hbefore
      have hkept : ((store.aliases.filter fun row => row.name ≠ after).filter fun row =>
          row.name ≠ name).find? (fun row => row.name = name) = none := by
        rw [List.find?_eq_none]
        intro row hrow
        simpa using (List.mem_filter.mp hrow).2
      rw [hkept]
      simp
  · next hbefore =>
      have hkept : ((store.aliases.filter fun row => row.name ≠ after).filter fun row =>
          row.name ≠ before).find? (fun row => row.name = name) =
            store.aliases.find? fun row => row.name = name := by
        rw [List.find?_filter, List.find?_filter]
        congr 1
        funext row
        by_cases hsame : row.name = name
        · simp [hsame, hafter, hbefore]
        · simp [hsame]
      have hother : ([{ name := before, topicId := id, renamedAt := now }] :
          List TopicAlias).find? (fun row => row.name = name) = none := by
        rw [List.find?_eq_none]
        intro row hrow
        rw [List.mem_singleton.mp hrow]
        simpa using fun hsame => hbefore hsame.symm
      rw [hkept, hother, Option.or_none]

theorem found_renamed (h : Distinct store) (hrenamed : Renamed store t) (name : String) :
    found t name = (holder t name).or (found store name) := by
  have ht := distinct_renamed h hrenamed
  rw [found_eq ht, found_eq h]
  cases hholder : holder t name with
  | some id => rfl
  | none =>
      rw [Option.none_or, Option.none_or]
      cases hrenamed with
      | same titles aliases =>
          rw [show holder store name = none from
            (lookFor_congr titles name).symm.trans hholder]
          unfold aliasOf
          rw [aliases, Option.none_or]
      | created id newName _ _ titles aliases =>
          have hbefore : holder store name = none := by
            apply lookFor_none.mpr
            intro hmem
            apply lookFor_none.mp hholder
            rw [titles, List.map_append]
            exact List.mem_append_left _ hmem
          rw [hbefore]
          unfold aliasOf
          rw [aliases, Option.none_or]
      | renamed id before after now there free titles aliases =>
          have hmoved : (id, after) ∈ t.titles := by
            rw [titles]
            exact List.mem_map.mpr ⟨(id, before), there, if_pos rfl⟩
          have hafter : name ≠ after := by
            intro hsame
            apply lookFor_none.mp hholder
            rw [hsame]
            exact List.mem_map_of_mem (f := Prod.snd) hmoved
          rw [aliasOf_renamed aliases hafter]
          by_cases hname : name = before
          · rw [if_pos hname, hname,
              show holder store before = some id from (lookFor_iff h).mpr there]
            rfl
          · have hbefore : holder store name = none := by
              apply lookFor_none.mpr
              intro hmem
              rcases List.mem_map.mp hmem with ⟨title, htitle, hheld⟩
              have hother : title.1 ≠ id := by
                intro hsame
                have hrow : (id, title.2) ∈ store.titles := by
                  rw [← hsame]
                  exact htitle
                exact hname (hheld.symm.trans (name_of_id h hrow there))
              apply lookFor_none.mp hholder
              rw [titles, ← hheld]
              apply List.mem_map_of_mem (f := Prod.snd)
              exact List.mem_map.mpr ⟨title, htitle, if_neg hother⟩
            rw [if_neg hname, hbefore, Option.none_or]

end Acts

/-- A name finds the topic that held it last, and a rename to a taken name or locator changes
nothing. -/
theorem names_find_latest_holder (project : ProjectId) (acts : List NameAct) (name : String) :
    (forall topic, found (actAll project acts) name = some topic <->
      Latest (act project) holder Store.empty acts name topic) ∧
    (forall topic, found (actAll project acts) name = some topic ->
      exists made, made <= acts.length ∧
        (topic, name) ∈ (actAll project (acts.take made)).titles) ∧
    forall now topic names locators job,
      names.2 ∈ (actAll project acts).titles.map Prod.snd ∨
        sourceAt locators.2 (actAll project acts) = true ->
      renameTopic now project topic names locators job (actAll project acts) =
        (actAll project acts, false) := by
  have hlatest : forall topic, found (actAll project acts) name = some topic <->
      Latest (act project) holder Store.empty acts name topic := by
    intro topic
    apply answer_iff_latest distinct_empty
    · intro store a h
      exact distinct_renamed h (act_renamed project store a)
    · rfl
    · intro store a h
      exact found_renamed h (act_renamed project store a) name
  refine ⟨hlatest, ?_, ?_⟩
  · intro topic h
    rcases (hlatest topic).mp h with ⟨made, hle, hheld, _⟩
    exact ⟨made, hle, lookFor_some hheld⟩
  · intro now topic names locators job h
    exact renameTopic_taken h

end Topics
end PaminMemory
