import OpenWorkersRunner.Lib.Parties
import OpenWorkersRunner.D1.Archive

/-!
# Rows of the index, and the objects they name

`Upload.Step`, `ForgetStep` and `Removal.Step` say once what an access can do, and `State.Step` what
a step of the archive can do.
-/

namespace OpenWorkersRunner.Archive

open List Option Parties

variable {config : Config}

/-! ## What an access can do -/

inductive Removal.Step (r : Remote) :
    Removal → Access → Except String (Option Removal) → Remote → Prop
  | forgot {old : Snapshot} {rest : List Snapshot} :
      Removal.Step r (.forget old rest) (.forget .done) (.ok (some (.delete old rest)))
        (r.forget old.databaseId old.seq)
  | forgetLost {old : Snapshot} {rest : List Snapshot} (e : String) :
      Removal.Step r (.forget old rest) (.forget (.lost e)) (.error e)
        (r.forget old.databaseId old.seq)
  | deleted {old : Snapshot} {rest : List Snapshot} :
      Removal.Step r (.delete old rest) (.delete .done) (.ok (Removal.start rest))
        (r.delete old.key)
  | deleteLost {old : Snapshot} {rest : List Snapshot} (e : String) :
      Removal.Step r (.delete old rest) (.delete (.lost e)) (.error e) (r.delete old.key)
  | failed (loop : Removal) (a : Access) (e : String) : Removal.Step r loop a (.error e) r

def SaveStage.early : SaveStage → Bool
  | .put | .size | .record => true
  | _ => false

def SaveStage.afterLoop (snapshot : Snapshot) : Except String (Option Removal) → SaveStage
  | .ok next => .ofLoop snapshot next
  | .error _ => .returned (.ok snapshot)

inductive Upload.Step (config : Config) (r : Remote) (u : Upload) :
    SaveStage → Access → SaveStage → Remote → Prop
  | put : Upload.Step config r u .put (.put .done) .size (r.put u.key u.bytes)
  | putLost (e : String) :
      Upload.Step config r u .put (.put (.lost e)) (.returned (.error e)) (r.put u.key u.bytes)
  | measured (hsize : (r.store u.key).map List.length = some u.bytes.length) :
      Upload.Step config r u .size (.size none) .record r
  | recorded (hlatest : r.isLatest u.epoch = true) :
      Upload.Step config r u .record (.record .done) .list
        { r with rows := r.rows ++ [u.snapshot config] }
  | recordLost (hlatest : r.isLatest u.epoch = true) (e : String) :
      Upload.Step config r u .record (.record (.lost e)) (.returned (.error e))
        { r with rows := r.rows ++ [u.snapshot config] }
  | failed {stage : SaveStage} (hearly : stage.early = true) (a : Access) (e : String) :
      Upload.Step config r u stage a (.returned (.error e)) r
  | listed {listing : List Snapshot} (hlisting : r.IsListing u.databaseId listing) :
      Upload.Step config r u .list (.list (.ok listing))
        (.ofLoop (u.snapshot config) (Removal.start (listing.drop config.keep))) r
  | notListed (e : String) :
      Upload.Step config r u .list (.list (.error e)) (.returned (.ok (u.snapshot config))) r
  | loop {loop : Removal} {a : Access} {next : Except String (Option Removal)} {r' : Remote}
      (h : loop.Step r a next r') :
      Upload.Step config r u (.removing loop) a (.afterLoop (u.snapshot config) next) r'

def ForgetStage.afterLoop : Except String (Option Removal) → ForgetStage
  | .ok next => .ofLoop next
  | .error e => .returned (.error e)

inductive ForgetStep (r : Remote) (databaseId : String) :
    ForgetStage → Access → ForgetStage → Remote → Prop
  | listed {listing : List Snapshot} (hlisting : r.IsListing databaseId listing) :
      ForgetStep r databaseId .list (.list (.ok listing)) (.ofLoop (Removal.start listing)) r
  | notListed (e : String) :
      ForgetStep r databaseId .list (.list (.error e)) (.returned (.error e)) r
  | loop {loop : Removal} {a : Access} {next : Except String (Option Removal)} {r' : Remote}
      (h : loop.Step r a next r') :
      ForgetStep r databaseId (.removing loop) a (.afterLoop next) r'

inductive State.Step (config : Config) (s : State) : Act → State → Prop
  | start {epoch : Int} (hnew : epoch ∉ s.epochs) :
      State.Step config s (.start epoch) { s with epochs := s.epochs ++ [epoch] }
  | save {u : Upload} (hepoch : u.epoch ∈ s.epochs) :
      State.Step config s (.save u) { s with calls := s.calls ++ [.save u .put] }
  | forgetAll (databaseId : String) :
      State.Step config s (.forgetAll databaseId)
        { s with calls := s.calls ++ [.forgetAll databaseId .list] }
  | ofSave {i : Nat} {a : Access} {u : Upload} {stage stage' : SaveStage} {r : Remote}
      (hi : s.calls[i]? = some (.save u stage)) (h : u.Step config s.toRemote stage a stage' r) :
      State.Step config s (.access i a) { toRemote := r, calls := s.calls.set i (.save u stage') }
  | ofForget {i : Nat} {a : Access} {databaseId : String} {stage stage' : ForgetStage} {r : Remote}
      (hi : s.calls[i]? = some (.forgetAll databaseId stage))
      (h : ForgetStep s.toRemote databaseId stage a stage' r) :
      State.Step config s (.access i a)
        { toRemote := r, calls := s.calls.set i (.forgetAll databaseId stage') }

variable {a : Access} {r r' : Remote} {s : State} {call : Call}

theorem Removal.step_eq {loop : Removal} {next : Except String (Option Removal)}
    (h : loop.step r a = some (next, r')) : loop.Step r a next r' := by
  revert h
  fun_cases Removal.step r loop a with
  | case1 old rest o => cases o <;> rintro ⟨⟩ <;> constructor
  | case2 old rest o => cases o <;> rintro ⟨⟩ <;> constructor
  | case3 => rintro ⟨⟩

theorem Upload.step_eq {u : Upload} {stage stage' : SaveStage}
    (h : u.step config r stage a = some (stage', r')) : u.Step config r stage a stage' r' := by
  revert h
  fun_cases Upload.step config r u stage a with
  | case1 o =>
    cases o <;> rintro ⟨⟩
    · exact .put
    · exact .failed rfl _ _
    · exact .putLost _
  | case2 e => rintro ⟨⟩; exact .failed rfl _ _
  | case3 =>
    rintro ⟨⟩
    split
    · exact .measured ‹_›
    · exact .failed rfl _ _
  | case4 o =>
    rintro ⟨⟩
    by_cases hl : r.isLatest u.epoch = true
    · have hre : r.record (u.snapshot config) =
          { r with rows := r.rows ++ [u.snapshot config] } := if_pos hl
      cases o <;> simp only [Outcome.error, Outcome.remote, Option.elim, hl, hre, if_true]
      · exact .recorded hl
      · exact .failed rfl _ _
      · exact .recordLost hl _
    · have hre : r.record (u.snapshot config) = r := if_neg hl
      cases o <;> simp only [Outcome.error, Outcome.remote, Option.elim, hl, hre]
      all_goals exact .failed rfl _ _
  | case5 listing hls => rintro ⟨⟩; exact .listed hls
  | case6 => rintro ⟨⟩
  | case7 e => rintro ⟨⟩; exact .notListed e
  | case8 loop =>
    intro h
    obtain ⟨⟨next, r''⟩, hst, heq⟩ := map_eq_some_iff.1 h
    cases heq
    cases next <;> exact .loop (Removal.step_eq hst)
  | case9 => rintro ⟨⟩

theorem forgetAll_eq {db : String} {stage stage' : ForgetStage}
    (h : forgetAll r db stage a = some (stage', r')) :
    ForgetStep r db stage a stage' r' := by
  revert h
  fun_cases forgetAll r db stage a with
  | case1 listing hl => rintro ⟨⟩; exact .listed hl
  | case2 => rintro ⟨⟩
  | case3 e => rintro ⟨⟩; exact .notListed e
  | case4 loop =>
    intro h
    obtain ⟨⟨next, r''⟩, hst, heq⟩ := map_eq_some_iff.1 h
    cases heq
    cases next <;> exact .loop (Removal.step_eq hst)
  | case5 => rintro ⟨⟩

theorem State.step_eq {t : State} {a : Act} (h : (machine config).step s a = some t) :
    State.Step config s a t := by
  cases a with
  | start epoch =>
    simp only [machine, State.step, ite_none_left_eq_some, some.injEq] at h
    obtain ⟨hn, rfl⟩ := h
    exact .start hn
  | save u =>
    simp only [machine, State.step, ite_none_right_eq_some, some.injEq] at h
    obtain ⟨hep, rfl⟩ := h
    exact .save hep
  | forgetAll db => cases h; exact .forgetAll db
  | access i a =>
    obtain ⟨call, hi, h⟩ := bind_eq_some_iff.1 h
    obtain ⟨⟨call', r⟩, hca, rfl⟩ := map_eq_some_iff.1 h
    cases call with
    | save u stage =>
      obtain ⟨⟨stage', r'⟩, hst, heq⟩ := map_eq_some_iff.1 hca
      cases heq
      exact .ofSave hi (Upload.step_eq hst)
    | forgetAll db stage =>
      obtain ⟨⟨stage', r'⟩, hst, heq⟩ := map_eq_some_iff.1 hca
      cases heq
      exact .ofForget hi (forgetAll_eq hst)

/-! ## Calls -/

namespace Call

def upload : Call → Option Upload
  | .save u _ => some u
  | .forgetAll _ _ => none

def early : Call → Bool
  | .save _ stage => stage.early
  | .forgetAll _ _ => false

def stored : Call → Bool
  | .save _ .size | .save _ .record => true
  | _ => false

def loop : Call → Option Removal
  | .save _ (.removing loop) | .forgetAll _ (.removing loop) => some loop
  | _ => none

end Call

theorem loop_save_ofLoop (u : Upload) (snap : Snapshot) (next : Option Removal) :
    (Call.save u (.ofLoop snap next)).loop = next := by cases next <;> rfl

theorem loop_forgetAll_ofLoop (db : String) (next : Option Removal) :
    (Call.forgetAll db (.ofLoop next)).loop = next := by cases next <;> rfl

def Removal.after : Except String (Option Removal) → Option Removal
  | .ok next => next
  | .error _ => none

theorem loop_save_afterLoop (u : Upload) (snap : Snapshot) (next : Except String (Option Removal)) :
    (Call.save u (.afterLoop snap next)).loop = Removal.after next := by
  cases next with
  | ok next => exact loop_save_ofLoop u snap next
  | error e => rfl

theorem loop_forgetAll_afterLoop (db : String) (next : Except String (Option Removal)) :
    (Call.forgetAll db (.afterLoop next)).loop = Removal.after next := by
  cases next with
  | ok next => exact loop_forgetAll_ofLoop db next
  | error e => rfl

theorem early_ofLoop (snap : Snapshot) (next : Option Removal) :
    (SaveStage.ofLoop snap next).early = false := by cases next <;> rfl

theorem early_afterLoop (snap : Snapshot) (next : Except String (Option Removal)) :
    (SaveStage.afterLoop snap next).early = false := by
  cases next with
  | ok next => exact early_ofLoop snap next
  | error e => rfl

theorem Call.early_of_stored (h : call.stored = true) : call.early = true := by
  unfold Call.stored at h
  split at h
  · rfl
  · rfl
  · cases h

theorem Removal.snapshots_start {l : List Snapshot} {loop : Removal} (h : start l = some loop) :
    loop.snapshots = l := by
  cases l with
  | nil => cases h
  | cons old rest => cases h; rfl

/-! ## The invariant -/

def Origin (config : Config) (s : State) (snapshot : Snapshot) : Prop :=
  ∃ (i : Nat) (call : Call) (u : Upload),
    s.calls[i]? = some call ∧ call.early = false ∧ call.upload = some u ∧
    snapshot = u.snapshot config

/-- The object that the row names is in the store, with the size and the checksum of the row. -/
def Backed (config : Config) (r : Remote) (row : Snapshot) : Prop :=
  ∃ bytes, r.store row.key = some bytes ∧ bytes.length = row.size ∧
    config.digest bytes = row.checksum

/-- Rows come from saves, each from one; what is uploaded stays; what is deleted has no row. -/
structure Sound (config : Config) (s : State) : Prop where
  backed : ∀ row ∈ s.rows, Backed config s.toRemote row
  rows : ∀ row ∈ s.rows, Origin config s row
  loops : ∀ call ∈ s.calls, ∀ loop, call.loop = some loop →
    ∀ old ∈ loop.snapshots, Origin config s old
  unique : ∀ (i j : Nat) (call call' : Call) (u u' : Upload), s.calls[i]? = some call →
    s.calls[j]? = some call' → call.upload = some u → call'.upload = some u' → u.key = u'.key →
    i = j
  stored : ∀ call ∈ s.calls, ∀ u, call.upload = some u → call.stored = true →
    s.store u.key = some u.bytes
  deleting : ∀ call ∈ s.calls, ∀ old rest, call.loop = some (.delete old rest) →
    ∀ row ∈ s.rows, row.key ≠ old.key

def KeysNotReused (s : State) : Act → Prop
  | .save u => ∀ u' stage, .save u' stage ∈ s.calls → u'.epoch = u.epoch → u'.key ≠ u.key
  | _ => True

structure Call.Goes (call call' : Call) : Prop where
  upload : call'.upload = call.upload
  early : call.early = false → call'.early = false

theorem Origin.set {i : Nat} {call' : Call} {x : Snapshot} (h : Origin config s x)
    (hi : s.calls[i]? = some call) (hgoes : call.Goes call') :
    Origin config { toRemote := r, calls := s.calls.set i call' } x := by
  obtain ⟨j, other, u, hj, hea, hu, hx⟩ := h
  by_cases hij : j = i
  · subst hij
    obtain rfl : other = call := mem_unique hj hi
    exact ⟨j, call', u, getElem?_set_of_some hi, hgoes.early hea, hgoes.upload.trans hu, hx⟩
  · refine ⟨j, other, u, ?_, hea, hu, hx⟩
    rw [getElem?_set_ne (Ne.symm hij), hj]

theorem Origin.concat {x : Snapshot} (h : Origin config s x) :
    Origin config { s with calls := s.calls ++ [call] } x := by
  obtain ⟨i, other, u, hi, hea, hu, hx⟩ := h
  exact ⟨i, other, u, getElem?_concat_of_some hi, hea, hu, hx⟩

namespace Sound

variable {s : State}

variable {call call' : Call} {i : Nat} {u : Upload}

variable (hs : Sound config s)

include hs

theorem key_ne {x : Snapshot} (hi : s.calls[i]? = some call)
    (hu : call.upload = some u) (hea : call.early = true) (hx : Origin config s x) :
    x.key ≠ u.key := by
  obtain ⟨j, other, u', hj, hl, hu', rfl⟩ := hx
  intro hk
  obtain rfl := hs.unique j i other call u' u hj hi hu' hu hk
  obtain rfl : other = call := mem_unique hj hi
  rw [hea] at hl
  cases hl

theorem origin_inj {x y : Snapshot} (hx : Origin config s x)
    (hy : Origin config s y) (hk : x.key = y.key) : x = y := by
  obtain ⟨i, call, u, hi, -, hu, rfl⟩ := hx
  obtain ⟨j, call', u', hj, -, hu', rfl⟩ := hy
  obtain rfl := hs.unique i j call call' u u' hi hj hu hu' hk
  obtain rfl : call = call' := mem_unique hi hj
  rw [some.inj (hu.symm.trans hu')]

theorem stored_of {j : Nat} {other : Call} (hj : s.calls[j]? = some other)
    (hu : other.upload = some u) (hst : other.stored = true) : s.store u.key = some u.bytes :=
  hs.stored other (mem_of_getElem? hj) u hu hst

section Move

variable {r : Remote} (hi : s.calls[i]? = some call) (hgoes : call.Goes call')

include hi hgoes

theorem unique_set :
    ∀ (j k : Nat) (a b : Call) (u u' : Upload), (s.calls.set i call')[j]? = some a →
      (s.calls.set i call')[k]? = some b → a.upload = some u → b.upload = some u' →
      u.key = u'.key → j = k := by
  have hba : ∀ (j : Nat) (a : Call), (s.calls.set i call')[j]? = some a →
      ∃ b, s.calls[j]? = some b ∧ b.upload = a.upload := by
    intro j a hj
    rcases getElem?_set_eq_some hj with ⟨rfl, rfl⟩ | ⟨-, hj⟩
    · exact ⟨call, hi, hgoes.upload.symm⟩
    · exact ⟨a, hj, rfl⟩
  intro j k a b u u' hj hk hu hu' hke
  obtain ⟨a', hj', ha⟩ := hba j a hj
  obtain ⟨b', hk', hb⟩ := hba k b hk
  exact hs.unique j k a' b' u u' hj' hk' (ha.trans hu) (hb.trans hu') hke

theorem move (hba : ∀ row ∈ r.rows, Backed config r row) (hro : ∀ row ∈ r.rows, row ∈ s.rows ∨
      Origin config { toRemote := r, calls := s.calls.set i call' } row)
    (hk : ∀ j other u, j ≠ i → s.calls[j]? = some other → other.upload = some u →
      other.stored = true → r.store u.key = some u.bytes)
    (hown : ∀ u, call'.upload = some u → call'.stored = true → r.store u.key = some u.bytes)
    (hlo : ∀ loop, call'.loop = some loop → ∀ old ∈ loop.snapshots, Origin config s old)
    (hd : ∀ old rest, call'.loop = some (.delete old rest) → ∀ row ∈ r.rows, row.key ≠ old.key)
    (hde : ∀ old, Origin config s old → (∀ row ∈ s.rows, row.key ≠ old.key) →
      ∀ row ∈ r.rows, row.key ≠ old.key) :
    Sound config { toRemote := r, calls := s.calls.set i call' } where
  backed := hba
  rows row hrow := (hro row hrow).elim (fun h => (hs.rows row h).set hi hgoes) id
  loops other ho loop hl old hold := by
    rcases eq_or_exists_of_mem_set ho with rfl | ⟨j, -, hj⟩
    · exact (hlo loop hl old hold).set hi hgoes
    · exact (hs.loops other (mem_of_getElem? hj) loop hl old hold).set hi hgoes
  unique := hs.unique_set hi hgoes
  stored other ho u hu hst := by
    rcases eq_or_exists_of_mem_set ho with rfl | ⟨j, hij, hj⟩
    · exact hown u hu hst
    · exact hk j other u hij hj hu hst
  deleting other ho old rest hl := by
    rcases eq_or_exists_of_mem_set ho with rfl | ⟨j, -, hj⟩
    · exact hd old rest hl
    · have hm := mem_of_getElem? hj
      exact hde old (hs.loops other hm _ hl old mem_cons_self)
        (hs.deleting other hm old rest hl)

theorem move_same (hst : call'.stored = true → call.stored = true)
    (hlo : ∀ loop, call'.loop = some loop → ∀ old ∈ loop.snapshots, old ∈ s.rows)
    (hd : ∀ old rest, call'.loop ≠ some (.delete old rest)) :
    Sound config { s with calls := s.calls.set i call' } :=
  hs.move hi hgoes hs.backed (fun _ => .inl) (fun _ _ _ _ hj => hs.stored_of hj)
    (fun _ hu h => hs.stored_of hi (hgoes.upload ▸ hu) (hst h))
    (fun loop hl old hold => hs.rows old (hlo loop hl old hold))
    (fun old rest hl => absurd hl (hd old rest)) fun _ _ h => h

theorem move_put (hu : call.upload = some u) (hea : call.early = true) (hl : call'.loop = none) :
    Sound config { toRemote := s.toRemote.put u.key u.bytes, calls := s.calls.set i call' } := by
  refine hs.move hi hgoes ?_ (fun _ => .inl) ?_ ?_ ?_ ?_ fun _ _ h => h
  · intro row hro
    obtain ⟨bs, hst, h⟩ := hs.backed row hro
    refine ⟨bs, ?_, h⟩
    rw [Remote.store_put_of_ne _ (hs.key_ne hi hu hea (hs.rows row hro)), hst]
  · intro j other u' hij hj hu' hstored
    have hk : u'.key ≠ u.key := fun hk => hij (hs.unique j i other call u' u hj hi hu' hu hk)
    rw [Remote.store_put_of_ne _ hk]
    exact hs.stored_of hj hu' hstored
  · intro u' hu' _
    rw [hgoes.upload, hu, some_inj] at hu'
    rw [← hu', Remote.store_put_self]
  · simp [hl]
  · simp [hl]

theorem move_record (hu : call.upload = some u) (hstored : call.stored = true)
    (hl : call'.early = false)
    (hlo : call'.loop = none) :
    Sound config
      { toRemote := { s.toRemote with rows := s.rows ++ [u.snapshot config] }
        calls := s.calls.set i call' } := by
  have hst := hs.stored_of hi hu hstored
  refine hs.move hi hgoes ?_ ?_ (fun _ _ _ _ hj => hs.stored_of hj) ?_ ?_ ?_ ?_
  · intro row hro
    rcases mem_append.1 hro with hro | hro
    · exact hs.backed row hro
    · obtain rfl := mem_singleton.1 hro
      exact ⟨u.bytes, hst, rfl, rfl⟩
  · intro row hro
    rcases mem_append.1 hro with hro | hro
    · exact .inl hro
    · obtain rfl := mem_singleton.1 hro
      exact .inr ⟨i, call', u, getElem?_set_of_some hi, hl, hgoes.upload.trans hu, rfl⟩
  · intro _ _ h
    rw [Call.early_of_stored h] at hl
    cases hl
  · simp [hlo]
  · simp [hlo]
  · intro old hold hne row hro
    rcases mem_append.1 hro with hro | hro
    · exact hne row hro
    · obtain rfl := mem_singleton.1 hro
      exact (hs.key_ne hi hu (Call.early_of_stored hstored) hold).symm

theorem move_forget {old : Snapshot} (hla : call'.early = false) (hold : Origin config s old)
    (hlo : ∀ loop, call'.loop = some loop →
      ∃ rest, loop = .delete old rest ∧ ∀ x ∈ rest, Origin config s x) :
    Sound config
      { toRemote := s.toRemote.forget old.databaseId old.seq, calls := s.calls.set i call' } := by
  refine hs.move hi hgoes ?_ ?_ (fun _ _ _ _ hj => hs.stored_of hj) ?_ ?_ ?_ ?_
  · exact fun row hro => hs.backed row ((Remote.mem_rows_forget _).1 hro).1
  · exact fun row hro => .inl ((Remote.mem_rows_forget _).1 hro).1
  · intro _ _ h
    rw [Call.early_of_stored h] at hla
    cases hla
  · intro loop hl x hx
    obtain ⟨rest, rfl, hre⟩ := hlo loop hl
    rcases mem_cons.1 hx with rfl | hx
    · exact hold
    · exact hre x hx
  · intro old' rest' hl row hro hk
    obtain ⟨rest, heq, -⟩ := hlo _ hl
    cases heq
    obtain ⟨hro, hne⟩ := (Remote.mem_rows_forget _).1 hro
    obtain rfl := hs.origin_inj (hs.rows row hro) hold hk
    exact hne ⟨rfl, rfl⟩
  · exact fun _ _ hne row hro => hne row ((Remote.mem_rows_forget _).1 hro).1

theorem move_delete {old : Snapshot} {rest : List Snapshot} (hla : call'.early = false)
    (hlo : call.loop = some (.delete old rest))
    (hn : ∀ loop, call'.loop = some loop → Removal.start rest = some loop) :
    Sound config { toRemote := s.toRemote.delete old.key, calls := s.calls.set i call' } := by
  have hm := mem_of_getElem? hi
  have hsn := hs.loops call hm _ hlo
  refine hs.move hi hgoes ?_ (fun _ => .inl) ?_ ?_ ?_ ?_ fun _ _ h => h
  · intro row hro
    obtain ⟨bs, hst, h⟩ := hs.backed row hro
    refine ⟨bs, ?_, h⟩
    rw [Remote.store_delete_of_ne _ (hs.deleting call hm old rest hlo row hro), hst]
  · intro j other u _ hj hu hstored
    have hk := hs.key_ne hj hu (Call.early_of_stored hstored) (hsn old mem_cons_self)
    rw [Remote.store_delete_of_ne _ hk.symm]
    exact hs.stored_of hj hu hstored
  · intro _ _ h
    rw [Call.early_of_stored h] at hla
    cases hla
  · intro loop hl x hx
    rw [Removal.snapshots_start (hn loop hl)] at hx
    exact hsn x (mem_cons_of_mem _ hx)
  · intro old' rest' hl
    have := hn _ hl
    cases rest <;> cases this

theorem move_loop {loop : Removal} {a : Access} {next : Except String (Option Removal)}
    (hla : call'.early = false) (hlo : call.loop = some loop)
    (hlo' : call'.loop = Removal.after next) (h : loop.Step s.toRemote a next r) :
    Sound config { toRemote := r, calls := s.calls.set i call' } := by
  have hsn := hs.loops call (mem_of_getElem? hi) loop hlo
  cases h with
  | @forgot old rest =>
    refine hs.move_forget hi hgoes hla (hsn old mem_cons_self) fun loop hl => ?_
    rw [hlo'] at hl
    cases hl
    exact ⟨rest, rfl, fun x hx => hsn x (mem_cons_of_mem _ hx)⟩
  | @forgetLost old rest e =>
    refine hs.move_forget hi hgoes hla (hsn old mem_cons_self) fun loop hl => ?_
    rw [hlo'] at hl
    cases hl
  | deleted => exact hs.move_delete hi hgoes hla hlo fun loop hl => hlo'.symm.trans hl
  | deleteLost e =>
    refine hs.move_delete hi hgoes hla hlo fun loop hl => ?_
    rw [hlo'] at hl
    cases hl
  | failed =>
    have hn : call'.loop = none := hlo'
    refine hs.move_same hi hgoes (fun h => ?_) (by simp [hn]) (by simp [hn])
    rw [Call.early_of_stored h] at hla
    cases hla

end Move

theorem concat (hlo : call.loop = none) (hst : call.stored = false)
    (hk : ∀ other ∈ s.calls, ∀ u u', other.upload = some u → call.upload = some u' →
      u.key ≠ u'.key) :
    Sound config { s with calls := s.calls ++ [call] } where
  backed := hs.backed
  rows row hro := (hs.rows row hro).concat
  loops other ho loop hl old hold := by
    rcases mem_append.1 ho with ho | ho
    · exact (hs.loops other ho loop hl old hold).concat
    · obtain rfl := mem_singleton.1 ho
      rw [hlo] at hl
      cases hl
  unique i j a b u u' hi hj hu hu' huu := by
    rcases getElem?_concat_eq_some hi with ha | ⟨hil, ha⟩
    · rcases getElem?_concat_eq_some hj with hb | ⟨-, rfl⟩
      · exact hs.unique i j a b u u' ha hb hu hu' huu
      · exact absurd huu (hk a (mem_of_getElem? ha) u u' hu hu')
    · rcases getElem?_concat_eq_some hj with hb | ⟨hjl, -⟩
      · subst ha
        exact absurd huu.symm (hk b (mem_of_getElem? hb) u' u hu' hu)
      · exact hil.trans hjl.symm
  stored other ho u hu h := by
    rcases mem_append.1 ho with ho | ho
    · exact hs.stored other ho u hu h
    · obtain rfl := mem_singleton.1 ho
      rw [hst] at h
      cases h
  deleting other ho old rest hl := by
    rcases mem_append.1 ho with ho | ho
    · exact hs.deleting other ho old rest hl
    · obtain rfl := mem_singleton.1 ho
      rw [hlo] at hl
      cases hl

theorem step {t : State} {a : Act} (hok : KeysNotReused s a)
    (h : State.Step config s a t) : Sound config t := by
  cases h with
  | start => exact ⟨hs.backed, hs.rows, hs.loops, hs.unique, hs.stored, hs.deleting⟩
  | @save u =>
    refine hs.concat rfl rfl fun other ho u' u'' hu' hu'' hk => ?_
    cases other with
    | forgetAll => cases hu'
    | save v stage =>
      obtain rfl := some.inj hu'
      obtain rfl := some.inj hu''
      exact hok v stage ho (objectName_inj hk).2.1 hk
  | forgetAll => exact hs.concat rfl rfl fun _ _ _ _ _ h => by cases h
  | @ofSave i a u stage stage' r hi h =>
    cases h with
    | put => exact hs.move_put hi ⟨rfl, nofun⟩ rfl rfl rfl
    | putLost => exact hs.move_put hi ⟨rfl, nofun⟩ rfl rfl rfl
    | measured => exact hs.move_same hi ⟨rfl, nofun⟩ (fun _ => rfl) nofun nofun
    | recorded => exact hs.move_record hi ⟨rfl, nofun⟩ rfl rfl rfl rfl
    | recordLost => exact hs.move_record hi ⟨rfl, nofun⟩ rfl rfl rfl rfl
    | failed => exact hs.move_same hi ⟨rfl, fun _ => rfl⟩ nofun nofun nofun
    | @listed listing hls =>
      refine hs.move_same hi ⟨rfl, fun _ => early_ofLoop ..⟩ (fun h => ?_) ?_ ?_
      · have := Call.early_of_stored h
        rw [Call.early, early_ofLoop] at this
        cases this
      · intro loop hl old hold
        rw [loop_save_ofLoop] at hl
        rw [Removal.snapshots_start hl] at hold
        exact mem_of_mem_filter (hls.perm.subset (mem_of_mem_drop hold))
      · intro old rest hl
        rw [loop_save_ofLoop] at hl
        cases hd : listing.drop config.keep <;> rw [hd] at hl <;> cases hl
    | notListed => exact hs.move_same hi ⟨rfl, fun _ => rfl⟩ nofun nofun nofun
    | loop h =>
      exact hs.move_loop hi ⟨rfl, fun _ => early_afterLoop ..⟩ (early_afterLoop ..) rfl
        (loop_save_afterLoop ..) h
  | @ofForget i a db stage stage' r hi h =>
    cases h with
    | @listed listing hls =>
      refine hs.move_same hi ⟨rfl, fun _ => rfl⟩ nofun ?_ ?_
      · intro loop hl old hold
        rw [loop_forgetAll_ofLoop] at hl
        rw [Removal.snapshots_start hl] at hold
        exact mem_of_mem_filter (hls.perm.subset hold)
      · intro old rest hl
        rw [loop_forgetAll_ofLoop] at hl
        cases listing <;> cases hl
    | notListed => exact hs.move_same hi ⟨rfl, fun _ => rfl⟩ nofun nofun nofun
    | loop h => exact hs.move_loop hi ⟨rfl, fun _ => rfl⟩ rfl rfl (loop_forgetAll_afterLoop ..) h

end Sound

theorem sound_of_reach (hs : (machine config).Reach KeysNotReused s) : Sound config s := by
  refine hs.invariant ?_ ?_
  · constructor <;> simp [machine, State.empty]
  exact fun _ _ _ _ hs hok h => hs.step hok (State.step_eq h)

/-! ## The fence -/

theorem isLatest_eq_false {epoch newer : Int} (hn : newer ∈ r.epochs) (h : epoch < newer) :
    r.isLatest epoch = false := by
  rw [Remote.isLatest, decide_eq_false_iff_not]
  intro hm
  have := (max?_eq_some_iff.1 hm).2 newer hn
  omega

/-- **No row dangles, and a runner that was replaced adds none.** -/
theorem rows_backed_and_fenced {s : State} (hs : (machine config).Reach KeysNotReused s) :
    (∀ row ∈ s.rows, Backed config s.toRemote row) ∧
    ∀ (i : Nat) (u : Upload) (o : Outcome) (t : State), s.calls[i]? = some (.save u .record) →
      (∃ epoch ∈ s.epochs, u.epoch < epoch) →
      (machine config).step s (.access i (.record o)) = some t →
      t.rows = s.rows ∧ ∃ e, t.calls[i]? = some (.save u (.returned (.error e))) := by
  refine ⟨(sound_of_reach hs).backed, ?_⟩
  rintro i u o t hi ⟨newer, hnew, hlt⟩ h
  have hlatest := isLatest_eq_false hnew hlt
  have hlen := (List.getElem?_eq_some_iff.mp hi).1
  cases State.step_eq h with
  | ofSave hi' h =>
    cases hi.symm.trans hi'
    cases h with
    | recorded h' | recordLost h' => rw [hlatest] at h'; cases h'
    | failed => exact ⟨rfl, _, List.getElem?_set_self hlen⟩
  | ofForget hi' => cases hi.symm.trans hi'

def keysNew (s : State) : Act → Bool
  | .save u =>
    s.calls.all fun call => call.upload.all fun u' => u'.epoch ≠ u.epoch || u'.key ≠ u.key
  | _ => true

theorem keysNotReused_of_keysNew {a : Act} (h : keysNew s a = true) : KeysNotReused s a := by
  cases a with
  | save u =>
    intro u' stage hm hep
    have := all_eq_true.1 h _ hm
    simpa [Call.upload, hep] using this
  | start | forgetAll | access => trivial

def oneKept : Config := ⟨fun bytes => toString bytes.length, 1⟩

def replacedRunner : List Act :=
  [.start 1, .save ⟨"a", [7], 1, 5⟩, .access 0 (.put .done), .access 0 (.size none),
    .access 0 (.record .done), .save ⟨"a", [8], 1, 6⟩, .access 1 (.put .done),
    .access 1 (.size none), .start 2]

theorem rows_backed_and_fenced_replaced :
    ∃ s t, (machine oneKept).Reach KeysNotReused s ∧ s.rows.length = 1 ∧
      (∀ row ∈ s.rows, Backed oneKept s.toRemote row) ∧
      (machine oneKept).step s (.access 1 (.record .done)) = some t ∧ t.rows = s.rows := by
  obtain ⟨s, hs, hlen, hepoch, hcall⟩ :=
      Machine.exists_reach_of_runIf (M := machine oneKept) keysNew
    (fun _ _ _ h => keysNotReused_of_keysNew h) replacedRunner
    (fun s => s.rows.length = 1 ∧ 2 ∈ s.epochs ∧
      s.calls[1]? = some (.save ⟨"a", [8], 1, 6⟩ .record)) (by decide)
  obtain ⟨hback, hfenced⟩ := rows_backed_and_fenced hs
  obtain ⟨t, ht⟩ : ∃ t, (machine oneKept).step s (.access 1 (.record .done)) = some t := by
    simp [machine, State.step, hcall, Call.step, Upload.step]
  exact ⟨s, t, hs, hlen, hback, ht, (hfenced 1 _ _ t hcall ⟨2, hepoch, by decide⟩ ht).1⟩

end OpenWorkersRunner.Archive
