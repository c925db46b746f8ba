import Lockstep.Storage.CommitTasks
import Lockstep.Storage.Sound

/-!
# Large values of commits that overlap

A task takes the place of its value in the value log from the engine's count, and the count moves
only when the task goes on after the append.
-/

namespace Lockstep.Storage

open Library GuardedRun WalEngine Disk.Grows Place List

namespace WalEngine

structure Stands (e : WalEngine) (w : Write) (v : Entry) : Prop where
  key : v.key = w.key
  seq : v.seq = w.seq
  tombstone : v.tombstone = w.tombstone
  keeps : e.Keeps v w.value

def Issued (e : WalEngine) (writes : List Write) (v : Entry) : Prop :=
  ∃ w ∈ writes, e.Stands w v

variable {e after : WalEngine} {writes more : List Write} {w : Write} {v : Entry}

lemma Stands.of_grows (h : e.Stands w v) (hlsm : after.lsm = e.lsm)
    (hgrows : e.FactoryGrows after) : after.Stands w v where
  key := h.key
  seq := h.seq
  tombstone := h.tombstone
  keeps := h.keeps.of_isPrefix hlsm fun id ↦ (hgrows id).image

lemma Issued.of_grows (h : e.Issued writes v) (hlsm : after.lsm = e.lsm)
    (hgrows : e.FactoryGrows after) : after.Issued writes v := by
  obtain ⟨w, hw, hstands⟩ := h
  exact ⟨w, hw, hstands.of_grows hlsm hgrows⟩

lemma Issued.mono (h : e.Issued writes v) (hsub : ∀ w ∈ writes, w ∈ more) :
    e.Issued more v := by
  obtain ⟨w, hw, hstands⟩ := h
  exact ⟨w, hsub w hw, hstands⟩

lemma stands_inline (e : WalEngine) (w : Write) : e.Stands w (w.record w.value false) :=
  ⟨rfl, rfl, rfl, rfl⟩

end WalEngine

namespace CommitPool

/-- The engine does not compact, a large value is appended only while no other is, the fields of its
pointer have the widths of the format, and no table takes the disk of the value log. -/
def AppendsAlone (pool : CommitPool) (w : Write) (p : Position) : Prop :=
  pool.state.compactionTrigger < 2 ∧
  (p.place = .spawned → pool.state.Separates w.value w.tombstone →
    (∀ t ∈ pool.tasks, t.2.place.appendsValue = false) ∧ w.value.length < 2 ^ 32 ∧
    pool.state.vlogLen + kVlogRecordHeaderBytes < 2 ^ 64 ∧ pool.state.vlogGen < 2 ^ 64) ∧
  pool.state.nextSstableId ≠ pool.state.vlogGen

instance (pool : CommitPool) (w : Write) (p : Position) : Decidable (AppendsAlone pool w p) :=
  inferInstanceAs (Decidable (_ ∧ _ ∧ _))

def OneAppend (pool : CommitPool) : CommitEvent → Prop
  | .resume task => ∀ t ∈ pool.tasks[task]?, AppendsAlone pool t.1 t.2
  | _ => True

instance (pool : CommitPool) : (event : CommitEvent) → Decidable (OneAppend pool event)
  | .resume task => inferInstanceAs (Decidable (∀ t ∈ pool.tasks[task]?, _))
  | .call _ _ _ | .complete _ _ => isTrue trivial

/-! ### What holds between turns -/

/-- The append of a value is under way: the log without it is as long as the count says. -/
structure Appending (e : WalEngine) (w : Write) (gen : ℕ) (enc : VlogEncoded)
    (outcome : Option Bool) : Prop where
  gen_eq : gen = e.vlogGen
  enc_eq : enc = encodeVlogRecord w.value e.vlogLen gen
  size : w.value.length < 2 ^ 32
  off : e.vlogLen + kVlogRecordHeaderBytes < 2 ^ 64
  gen_lt : gen < 2 ^ 64
  image : ∃ front, front.length = e.vlogLen ∧
    (e.factory gen).image = front ++ if outcome = some true then enc.bytes else []

def Matched (e : WalEngine) (writes : List Write) : Prop :=
  e.lsm = true ∧ ∀ v ∈ e.versions, e.Issued writes v

/-- What a task is about to store stands for its value, and what it is about to install are versions
of writes. -/
structure Carries (e : WalEngine) (writes : List Write) (w : Write) (p : Position) : Prop where
  value : ∀ gen enc, p.place = .valueLog gen enc → Appending e w gen enc p.outcome
  record : ∀ r ∈ p.place.record, e.Stands w r
  table : ∀ t ∈ p.place.installing, t.1 ≠ e.vlogGen ∧ ∀ v ∈ t.2, e.Issued writes v

def Alternate (p p' : Position) : Prop :=
  p.place.appendsValue = true → p'.place.appendsValue = false

/-- The value log is as long as the engine's count, or a task has yet to count its value. -/
def Counted (pool : CommitPool) : Prop :=
  (∃ (i : ℕ) (w : Write) (p : Position), pool.tasks[i]? = some (w, p) ∧
    p.place.appendsValue = true ∧ p.outcome = some true) ∨
  (pool.state.factory pool.state.vlogGen).image.length = pool.state.vlogLen

structure Coherent (pool : CommitPool) : Prop where
  holds : pool.Holds Matched Carries Alternate
  counted : Counted pool

variable {e after : WalEngine} {writes more : List Write} {w : Write} {p : Position}

lemma Carries.of_grows (h : Carries e writes w p) (hlsm : after.lsm = e.lsm)
    (hgen : after.vlogGen = e.vlogGen) (hgrows : e.FactoryGrows after)
    (hsub : ∀ w ∈ writes, w ∈ more)
    (hvalue : p.place.appendsValue = true → after.vlogLen = e.vlogLen ∧
      (after.factory e.vlogGen).image = (e.factory e.vlogGen).image) :
    Carries after more w p where
  value gen enc hplace := by
    obtain ⟨hlen, himage⟩ := hvalue (by rw [hplace]; rfl)
    obtain ⟨rfl, henc, hsize, hoff, hlt, hfront⟩ := h.value gen enc hplace
    exact ⟨hgen.symm, by rw [hlen]; exact henc, hsize, by rw [hlen]; exact hoff, hlt,
      by rw [hlen, himage]; exact hfront⟩
  record r hr := (h.record r hr).of_grows hlsm hgrows
  table t ht := by
    obtain ⟨hne, hentries⟩ := h.table t ht
    exact ⟨hgen ▸ hne, fun v hv ↦ ((hentries v hv).of_grows hlsm hgrows).mono hsub⟩

lemma carries_of (hvalue : p.place.appendsValue = false)
    (hrecord : ∀ r ∈ p.place.record, e.Stands w r)
    (htable : ∀ t ∈ p.place.installing, t.1 ≠ e.vlogGen ∧ ∀ v ∈ t.2, e.Issued writes v) :
    Carries e writes w p where
  value gen enc hplace := by
    rw [hplace] at hvalue
    cases hvalue
  record := hrecord
  table := htable

lemma carries_record {record : WalRecord} (hplace : p.place.record = some record)
    (hstands : e.Stands w record) : Carries e writes w p := by
  obtain ⟨htable, hvalue, -⟩ := of_record hplace
  refine carries_of hvalue (fun r hr ↦ ?_) fun t ht ↦ ?_
  · exact Option.some.inj (hplace.symm.trans hr) ▸ hstands
  · rw [htable] at ht
    cases ht

lemma carries_table {table : ℕ × List SstEntry} (hplace : p.place.installing = some table)
    (hid : table.1 ≠ e.vlogGen) (hentries : ∀ v ∈ table.2, e.Issued writes v) :
    Carries e writes w p := by
  obtain ⟨hrecord, hvalue, -⟩ := of_installing hplace
  refine carries_of hvalue (fun r hr ↦ ?_) fun t ht ↦ ?_
  · rw [hrecord] at hr
    cases hr
  · exact Option.some.inj (hplace.symm.trans ht) ▸ ⟨hid, hentries⟩

/-! ### One turn -/

variable {pool : CommitPool} {i : ℕ} {p' : Position}

structure Turned (pool : CommitPool) (w : Write) (p : Position) (after : WalEngine)
    (p' : Position) : Prop where
  lsm : after.lsm = pool.state.lsm
  gen : after.vlogGen = pool.state.vlogGen
  grows : pool.state.FactoryGrows after
  versions : ∀ v ∈ after.versions, v ∈ pool.state.versions ∨ after.Issued pool.arguments v
  carries : Carries after pool.arguments w p'
  log : p.place.appendsValue = false → after.vlogLen = pool.state.vlogLen ∧
    (after.factory pool.state.vlogGen).image = (pool.state.factory pool.state.vlogGen).image
  alone : p'.place.appendsValue = true → p.place.appendsValue = true ∨
    ∀ t ∈ pool.tasks, t.2.place.appendsValue = false
  counts : p.place.appendsValue = true →
    p'.place.appendsValue = true ∧ p'.outcome = some true ∨
      (after.factory after.vlogGen).image.length = after.vlogLen

lemma Coherent.turn (h : Coherent pool)
    {act : WalEngine → Write → Position → WalEngine × Position}
    (hturn : ∀ w p, pool.tasks[i]? = some (w, p) →
      Turned pool w p (act pool.state w p).1 (act pool.state w p).2) :
    Coherent (pool.turn act i) := by
  obtain ⟨hlsm, hmatched⟩ := h.holds.shared
  refine ⟨h.holds.turn fun w p hi ↦ ?_, ?_⟩
  · have ht := hturn w p hi
    refine ⟨⟨ht.lsm.trans hlsm, fun v hv ↦ ?_⟩, ht.carries, fun j w' other hne hj ↦ ?_⟩
    · rcases ht.versions v hv with hold | hnew
      · exact (hmatched v hold).of_grows ht.lsm ht.grows
      · exact hnew
    have hapart := h.holds.apart i j w p w' other hne.symm hi hj
    have hapart' := h.holds.apart j i w' other w p hne hj hi
    refine ⟨(h.holds.each j w' other hj).of_grows ht.lsm ht.gen ht.grows (fun _ hw ↦ hw)
      fun hvalue ↦ ht.log (hapart' hvalue), fun hvalue ↦ ?_, fun hvalue ↦ ?_⟩
    · exact (ht.alone hvalue).elim hapart fun hnone ↦
        hnone _ (mem_of_getElem? hj)
    by_contra hboth
    rw [Bool.not_eq_false] at hboth
    rcases ht.alone hboth with hp | hnone
    · cases (hapart' hvalue).symm.trans hp
    · cases (hnone _ (mem_of_getElem? hj)).symm.trans hvalue
  · cases hi : pool.tasks[i]? with
    | none =>
      rw [TaskPool.turn_of_none hi]
      exact h.counted
    | some task =>
      have ht := hturn task.1 task.2 hi
      have hself := @TaskPool.tasks_turn_self _ _ _ act pool i task.1 task.2 hi
      have hstate : (pool.turn act i).state = (act pool.state task.1 task.2).1 := by
        rw [TaskPool.turn_of_some hi]
      rw [Counted, hstate]
      cases hvalue : task.2.place.appendsValue with
      | true => exact (ht.counts hvalue).imp_left fun hlanded ↦ ⟨i, _, _, hself, hlanded⟩
      | false =>
        obtain ⟨hlen, himage⟩ := ht.log hvalue
        rcases h.counted with ⟨k, w, p, hk, hp⟩ | hcount
        · have hne : k ≠ i := by
            rintro rfl
            cases hi.symm.trans hk
            cases hvalue.symm.trans hp.1
          exact .inl ⟨k, w, p, (TaskPool.tasks_turn_of_ne hne).trans hk, hp⟩
        · right
          rw [ht.gen, hlen, himage, hcount]

lemma Coherent.turned_self (h : Coherent pool) (hi : pool.tasks[i]? = some (w, p)) :
    Turned pool w p pool.state p where
  lsm := rfl
  gen := rfl
  grows id := refl _
  versions v hv := Or.inl hv
  carries := h.holds.each i w p hi
  log _ := ⟨rfl, rfl⟩
  alone hvalue := Or.inl hvalue
  counts hvalue := by
    rcases h.counted with ⟨k, w', other, hk, hother, hlanded⟩ | hcount
    · by_cases hki : k = i
      · subst hki
        cases hi.symm.trans hk
        exact .inl ⟨hvalue, hlanded⟩
      · cases (h.holds.apart k i w' other w p hki hk hi hother).symm.trans hvalue
    · exact .inr hcount

lemma Appending.length_eq {gen : ℕ} {enc : VlogEncoded} {outcome : Option Bool}
    (h : Appending e w gen enc outcome) (hlost : outcome ≠ some true) :
    (e.factory e.vlogGen).image.length = e.vlogLen := by
  obtain ⟨rfl, -, -, -, -, front, hfront, himage⟩ := h
  rw [himage, if_neg hlost, append_nil, hfront]

lemma eq_valueLog {place : Place} (h : place.appendsValue = true) :
    ∃ gen enc, place = .valueLog gen enc := by
  cases place with
  | valueLog gen enc => exact ⟨gen, enc, rfl⟩
  | _ => cases h

lemma Coherent.complete (h : Coherent pool) (ok : Bool) :
    Coherent (pool.turn (completes ok) i) := by
  refine h.turn fun w p hi ↦ ?_
  have hcarries := h.holds.each i w p hi
  rcases completes_cases ok pool.state w p with
    hsame | ⟨hflight, d, factory, man, heq, hgrows, hlanded, hother⟩
  · rw [hsame]
    exact h.turned_self hi
  rw [heq]
  have happending : ∀ gen enc, p.place = .valueLog gen enc →
      Appending { pool.state with disk := d, factory := factory, manifestDisk := man } w gen enc
        (some ok) := by
    intro gen enc hplace
    obtain ⟨hgen, henc, hsize, hoff, hlt, front, hfront, himage⟩ := hcarries.value gen enc hplace
    refine ⟨hgen, henc, hsize, hoff, hlt, front, hfront, (hlanded gen enc hplace).trans ?_⟩
    rw [himage, hflight, if_neg nofun, append_nil]
  refine ⟨rfl, rfl, hgrows, fun v hv ↦ .inl hv, ⟨happending, fun r hr ↦ ?_, fun t ht ↦ ?_⟩,
    fun hvalue ↦ ⟨rfl, hother _ ?_ ?_⟩, .inl, fun hvalue ↦ ?_⟩
  · exact (hcarries.record r hr).of_grows rfl hgrows
  · obtain ⟨hid, hentries⟩ := hcarries.table t ht
    exact ⟨hid, fun v hv ↦ (hentries v hv).of_grows rfl hgrows⟩
  · rintro enc hplace
    rw [hplace] at hvalue
    cases hvalue
  · intro entries hplace
    exact (hcarries.table (pool.state.vlogGen, entries) (by rw [hplace]; rfl)).1 rfl
  · cases ok with
    | true => exact .inl ⟨hvalue, rfl⟩
    | false =>
      obtain ⟨gen, enc, hplace⟩ := eq_valueLog hvalue
      exact .inr ((happending gen enc hplace).length_eq nofun)

lemma Appending.stands {gen : ℕ} {enc : VlogEncoded} (h : Appending e w gen enc (some true))
    (hlsm : after.lsm = true) (hfactory : after.factory = e.factory) :
    after.Stands w (w.record enc.ptr.encode true) := by
  obtain ⟨-, rfl, hsize, hoff, hlt, front, hfront, himage⟩ := h
  refine ⟨rfl, rfl, rfl, ?_⟩
  rw [← hfront] at hoff himage ⊢
  rw [← hfactory, ← append_nil (encodeVlogRecord _ _ _).bytes] at himage
  exact derefValue_encodeVlogRecord hlsm himage hsize hoff hlt

lemma turned_of_log (hp : p.place.appendsValue = false) (hp' : p'.place.appendsValue = false)
    (hlsm : after.lsm = pool.state.lsm) (hgen : after.vlogGen = pool.state.vlogGen)
    (hfactory : after.factory = pool.state.factory) (hlen : after.vlogLen = pool.state.vlogLen)
    (hversions : ∀ v ∈ after.versions,
      v ∈ pool.state.versions ∨ pool.state.Issued pool.arguments v)
    (hcarries : Carries pool.state pool.arguments w p') : Turned pool w p after p' := by
  have hgrows : pool.state.FactoryGrows after := by
    intro id
    rw [hfactory]
    exact refl _
  exact
    { lsm := hlsm
      gen := hgen
      grows := hgrows
      versions := fun v hv ↦ (hversions v hv).imp_right fun h ↦ h.of_grows hlsm hgrows
      carries := hcarries.of_grows hlsm hgen hgrows (fun _ hw ↦ hw)
        fun hvalue ↦ absurd (hp'.symm.trans hvalue) nofun
      log := fun _ ↦ ⟨hlen, by rw [hfactory]⟩
      alone := fun hvalue ↦ absurd (hp'.symm.trans hvalue) nofun
      counts := fun hvalue ↦ absurd (hp.symm.trans hvalue) nofun }

lemma Coherent.moves (h : Coherent pool) (hi : pool.tasks[i]? = some (w, p)) {ok : Bool}
    {place : Place} (hready : p.ready = some ok)
    (hsafe : AppendsAlone pool w p)
    (hmoves : Moves pool.state w ok p.place after place) :
    Turned pool w p after { place := place } := by
  have hcarries := h.holds.each i w p hi
  obtain ⟨hlsm, hmatched⟩ := h.holds.shared
  obtain ⟨-, halone, hid⟩ := hsafe
  have hw : w ∈ pool.arguments := mem_map.mpr ⟨_, mem_of_getElem? hi, rfl⟩
  generalize hplace : p.place = before at hmoves
  cases hmoves with
  | separates hlarge =>
    obtain ⟨hnone, hsize, hoff, hlt⟩ := halone hplace hlarge
    -- No other task appends, and so the count is right.
    have hcount : (pool.state.factory pool.state.vlogGen).image.length = pool.state.vlogLen := by
      rcases h.counted with ⟨k, w', other, hk, hother, -⟩ | hcount
      · cases (hnone _ (mem_of_getElem? hk)).symm.trans hother
      · exact hcount
    refine ⟨rfl, rfl, fun id ↦ refl _, fun v hv ↦ .inl hv, ?_, fun _ ↦ ⟨rfl, rfl⟩,
      fun _ ↦ .inr hnone, fun _ ↦ .inr hcount⟩
    refine ⟨?_, nofun, nofun⟩
    rintro _ _ ⟨⟩
    exact ⟨rfl, rfl, hsize, hoff, hlt, _, hcount, (append_nil _).symm⟩
  | inline hbefore hnext hfirst hlost =>
    refine ⟨rfl, rfl, fun id ↦ refl _, fun v hv ↦ .inl hv,
      carries_record hnext (stands_inline _ w), fun _ ↦ ⟨rfl, rfl⟩, fun hvalue ↦ ?_,
      fun hvalue ↦ .inr ?_⟩
    · cases (of_record hnext).2.1.symm.trans hvalue
    obtain ⟨gen, enc, hgen⟩ := eq_valueLog hvalue
    refine (hcarries.value gen enc hgen).length_eq ?_
    rw [Position.ready, hgen] at hready
    rw [show p.outcome = some ok from hready, hlost (by rw [← hplace, hgen]; rfl)]
    nofun
  | @separated gen enc _ hok hnext =>
    rw [Position.ready, hplace] at hready
    have hlanded : p.outcome = some true := hok ▸ hready
    have happending := hcarries.value gen enc hplace
    rw [hlanded] at happending
    refine ⟨rfl, rfl, fun id ↦ refl _, fun v hv ↦ .inl hv,
      carries_record hnext (happending.stands hlsm rfl), fun hvalue ↦ ?_, fun hvalue ↦ ?_,
      fun _ ↦ .inr ?_⟩
    · rw [hplace] at hvalue
      cases hvalue
    · cases (of_record hnext).2.1.symm.trans hvalue
    · obtain ⟨rfl, -, -, -, -, front, hfront, himage⟩ := happending
      rw [himage, length_append, hfront]
      rfl
  | logs record =>
    refine turned_of_log (by rw [hplace]; rfl) rfl rfl rfl rfl rfl (fun v hv ↦ .inl hv) ?_
    exact carries_record rfl (hcarries.record record (by rw [hplace]; rfl))
  | inserts record hnext =>
    have hnone : Carries pool.state pool.arguments w { place := place } := by
      rcases hnext with rfl | rfl <;> exact carries_of rfl nofun nofun
    refine turned_of_log (by rw [hplace]; rfl) (by rcases hnext with rfl | rfl <;> rfl) rfl rfl rfl
      rfl (fun v hv ↦ ?_) hnone
    rcases mem_append.mp hv with hmem | htable
    · rcases Memtable.mem_place.mp hmem with rfl | hold
      · exact .inr ⟨w, hw, hcarries.record v (by rw [hplace]; rfl)⟩
      · exact .inl (mem_append_left _ hold)
    · exact .inl (mem_append_right _ htable)
  | syncs =>
    exact turned_of_log (by rw [hplace]; rfl) rfl rfl rfl rfl rfl (fun v hv ↦ .inl hv)
      (carries_of rfl nofun nofun)
  | snapshots hbefore =>
    have hp : p.place.appendsValue = false := by
      rw [hplace]
      rcases hbefore with rfl | ⟨gen, rfl⟩ <;> rfl
    refine turned_of_log hp rfl rfl rfl rfl rfl (fun v hv ↦ .inl hv) (carries_table rfl hid ?_)
    intro v hv
    exact hmatched v (mem_append_left _ (mem_filter.mp hv).1)
  | proceeds tip started hbefore hnext =>
    rw [← hplace] at hbefore
    obtain ⟨hne, hentries⟩ := hcarries.table _ hbefore
    exact turned_of_log (of_installing hbefore).2.1 (of_installing hnext).2.1 rfl rfl
      rfl rfl (fun v hv ↦ .inl hv) (carries_table hnext hne hentries)
  | installs id entries =>
    refine turned_of_log (by rw [hplace]; rfl) rfl rfl rfl rfl rfl (fun v hv ↦ ?_)
      (carries_of rfl nofun nofun)
    rcases mem_append.mp hv with hmem | htable
    · exact .inl (mem_append_left _ (mem_eraseFlushable_or.mp (.inl hmem)))
    rw [flatMap_append, flatMap_singleton] at htable
    rcases mem_append.mp htable with hold | hnew
    · exact .inl (mem_append_right _ hold)
    · rw [collectEntries_adoptBuilt] at hnew
      exact .inr ((hcarries.table (id, entries) (by rw [hplace]; rfl)).2 v hnew)
  | returns tip hbefore hnext =>
    have hp : p.place.appendsValue = false := by
      rw [hplace]
      cases before <;> first | rfl | cases hbefore
    have hnone : Carries pool.state pool.arguments w { place := place } := by
      rcases hnext with rfl | rfl <;> exact carries_of rfl nofun nofun
    exact turned_of_log hp (by rcases hnext with rfl | rfl <;> rfl) rfl rfl rfl rfl
      (fun v hv ↦ .inl hv) hnone

lemma Coherent.resume (h : Coherent pool) (hsafe : OneAppend pool (.resume i)) :
    Coherent (pool.turn resumes i) := by
  refine h.turn fun w p hi ↦ ?_
  rcases resumes_cases pool.state w p with hsame | ⟨ok, after, place, hready, heq, hmoves⟩
  · rw [hsame]
    exact h.turned_self hi
  · rw [heq]
    exact h.moves hi hready (hsafe (w, p) hi) hmoves

lemma Coherent.call (h : Coherent pool) (seq : Seq) (w : Write) :
    Coherent (pool.spawn { pool.state with lastSeq := seq } w {}) := by
  have hgrows : pool.state.FactoryGrows { pool.state with lastSeq := seq } :=
    fun id ↦ refl _
  obtain ⟨hlsm, hmatched⟩ := h.holds.shared
  have hsub : ∀ w' ∈ pool.arguments, w' ∈ pool.arguments ++ [w] :=
    fun _ hw ↦ mem_append_left _ hw
  refine ⟨h.holds.spawn ⟨hlsm, fun v hv ↦ ?_⟩ (carries_of rfl nofun nofun) fun j w' p hj ↦ ?_, ?_⟩
  · exact ((hmatched v hv).mono hsub).of_grows rfl hgrows
  · exact ⟨(h.holds.each j w' p hj).of_grows rfl rfl hgrows hsub fun _ ↦ ⟨rfl, rfl⟩, nofun,
      fun _ ↦ rfl⟩
  · rcases h.counted with ⟨k, w', p, hk, hp⟩ | hcount
    · refine .inl ⟨k, w', p, ?_, hp⟩
      exact (List.getElem?_append_left (List.getElem?_eq_some_iff.mp hk).1).trans hk
    · exact .inr hcount

lemma Coherent.step (h : Coherent pool) {event : CommitEvent} (hsafe : OneAppend pool event) :
    Coherent (pool.step event) := by
  cases event with
  | call key value tombstone => exact h.call _ _
  | complete task ok => exact h.complete ok
  | resume task => exact h.resume hsafe

lemma Coherent.start (c : Config) (io : Script) :
    Coherent { state := c.engine io } where
  holds := by
    refine ⟨⟨rfl, nofun⟩, fun i w p hi ↦ ?_,
      fun i j w p w' p' _ hi ↦ ?_⟩
    all_goals cases hi
  counted := .inr (by rfl)

/-- In every run in which values are appended one at a time, each version that the engine holds
stands for the value of the write with its number. -/
theorem stored_values_match (c : Config) (io : Script) {events : List CommitEvent}
    (hsafe : Meets step OneAppend { state := c.engine io } events) :
    let pool := GuardedRun.run step { state := c.engine io } events
    ∀ v ∈ pool.state.versions, ∃ w ∈ pool.arguments, v.seq = w.seq ∧ v.key = w.key ∧
      v.tombstone = w.tombstone ∧
      (if v.vlog then pool.state.derefValue v.value else some v.value) = some w.value := by
  have h := hsafe.induction Coherent (fun _ _ hcoherent ↦ hcoherent.step)
    (Coherent.start c io)
  intro pool v hv
  obtain ⟨w, hw, hstands⟩ := h.holds.shared.2 v hv
  refine ⟨w, hw, hstands.seq, hstands.key, hstands.tombstone, ?_⟩
  have hkeeps := hstands.keeps
  rw [Keeps] at hkeeps
  split_ifs at hkeeps ⊢
  · exact hkeeps
  · exact congrArg some hkeeps

def valuesInTurn : List CommitEvent :=
  [.call [1] [10, 11] false, .call [2] [20, 21] false, .resume 0, .complete 0 true, .resume 0,
    .resume 1, .complete 1 true, .resume 1, .complete 0 true, .resume 0, .complete 1 true,
    .complete 0 true, .resume 1, .resume 0]

theorem stored_values_match_inTurn :
    let pool := GuardedRun.run step
      { state := WalEngine.Config.engine { valueThreshold := 1 } Script.honest } valuesInTurn
    (pool.tasks.all fun t ↦ t.2.place = .finished) = true ∧
      (pool.state.versions.map Entry.seq = [1, 2]) ∧
      ∀ v ∈ pool.state.versions, ∃ w ∈ pool.arguments, v.seq = w.seq ∧ v.key = w.key ∧
        v.tombstone = w.tombstone ∧
        (if v.vlog then pool.state.derefValue v.value else some v.value) = some w.value :=
  ⟨by decide +kernel, by decide +kernel, stored_values_match _ _ (by decide +kernel)⟩

def valuesAtOnce : List CommitEvent :=
  [.call [1] [10, 11] false, .call [2] [20, 21] false, .resume 0, .resume 1, .complete 0 true,
    .complete 1 true, .resume 0, .complete 0 true, .resume 0, .complete 0 true, .resume 0,
    .resume 1, .complete 1 true, .resume 1]

/-- Both pointers lead to the start of the log, where the first value is. The second one fails its
checksum there, and the value of the second write is gone. -/
theorem stored_values_mixed :
    let pool := GuardedRun.run step
      { state := WalEngine.Config.engine { valueThreshold := 1 } Script.honest } valuesAtOnce
    (pool.tasks.all fun t ↦ t.2.place = .finished) = true ∧
      pool.arguments.map Write.value = [[10, 11], [20, 21]] ∧
      pool.state.versions.map (fun v ↦ (v.seq, v.vlog, pool.state.derefValue v.value)) =
        [(1, true, some [10, 11]), (2, true, none)] := by
  decide +kernel

end CommitPool

end Lockstep.Storage
