import Mathlib.Data.List.Iterate
import Mathlib.Data.Nat.Digits.Defs
import Phantora.Lib.Ranking
import Phantora.Simulator.Communicators

/-!
# Identifiers of communicators

The server counts through the 128 bytes of an identifier, the first byte being
the lowest, and hands out a new one to who asks for a unique identifier and to
every part of a communicator that is split. After `2 ^ 1024` identifiers the
count starts again.
-/

namespace Phantora

open Outcome Ranking

/-- The number that bytes stand for, the first byte being the lowest. -/
def bytesValue (bytes : List UInt8) : ℕ :=
  Nat.ofDigits 256 (bytes.map UInt8.toNat)

@[simp]
theorem bytesValue_cons (byte : UInt8) (bytes : List UInt8) :
    bytesValue (byte :: bytes) = byte.toNat + 256 * bytesValue bytes := by
  simp [bytesValue, Nat.ofDigits_cons]

theorem bytesValue_lt (bytes : List UInt8) : bytesValue bytes < 256 ^ bytes.length := by
  induction bytes with
  | nil => simp [bytesValue]
  | cons byte bytes ih =>
      have low := byte.toNat_lt
      rw [bytesValue_cons, List.length_cons, pow_succ]
      omega

theorem bytesValue_injective {first second : List UInt8} (length : first.length = second.length)
    (same : bytesValue first = bytesValue second) : first = second := by
  induction first generalizing second with
  | nil => exact (List.length_eq_zero_iff.mp length.symm).symm
  | cons byte bytes ih =>
      cases second with
      | nil => cases length
      | cons byte' bytes' =>
          have low := byte.toNat_lt
          have low' := byte'.toNat_lt
          rw [bytesValue_cons, bytesValue_cons] at same
          have lowest : byte = byte' := UInt8.toNat_inj.mp (by omega)
          rw [lowest, ih (by simpa using length) (by omega)]

/-- The next identifier is one more, until all bytes are full. -/
theorem bytesValue_incrBytes (bytes : List UInt8) :
    bytesValue (incrBytes bytes) = (bytesValue bytes + 1) % 256 ^ bytes.length := by
  induction bytes with
  | nil => simp [incrBytes, bytesValue]
  | cons byte bytes ih =>
      have bound := bytesValue_lt bytes
      have low := byte.toNat_lt
      by_cases carry : byte = 255
      · subst byte
        have all : bytesValue (255 :: bytes) + 1 = 256 * (bytesValue bytes + 1) := by
          simp only [bytesValue_cons, UInt8.reduceToNat]
          omega
        rw [all, incrBytes, if_pos rfl, bytesValue_cons, ih, List.length_cons, pow_succ',
          Nat.mul_mod_mul_left]
        simp
      · have room : byte.toNat ≠ 255 := fun full => carry (UInt8.toNat_inj.mp full)
        have next : (byte + 1).toNat = byte.toNat + 1 := by
          rw [UInt8.toNat_add]
          simp only [UInt8.reduceToNat]
          omega
        rw [incrBytes, if_neg carry, bytesValue_cons, bytesValue_cons, next, List.length_cons,
          pow_succ, Nat.mod_eq_of_lt (by omega)]
        omega

/-- The number of identifiers. -/
def idCount : ℕ := 256 ^ 128

def NcclId.value (id : NcclId) : ℕ :=
  bytesValue id.bytes

theorem NcclId.value_lt (id : NcclId) : id.value < idCount := by
  have bound := bytesValue_lt id.bytes
  rw [id.length_eq] at bound
  exact bound

theorem NcclId.value_injective {first second : NcclId} (same : first.value = second.value) :
    first = second := by
  rcases first with ⟨bytes, length⟩
  rcases second with ⟨bytes', length'⟩
  rw [NcclId.mk.injEq]
  exact bytesValue_injective (length.trans length'.symm) same

theorem value_incrNcclId (id : NcclId) : (incrNcclId id).value = (id.value + 1) % idCount := by
  have next := bytesValue_incrBytes id.bytes
  rw [id.length_eq] at next
  exact next

theorem value_iterate (id : NcclId) (k : ℕ) :
    (incrNcclId^[k] id).value = (id.value + k) % idCount := by
  induction k with
  | zero => exact (Nat.mod_eq_of_lt id.value_lt).symm
  | succ k ih => rw [Function.iterate_succ_apply', value_incrNcclId, ih, Nat.mod_add_mod, add_assoc]

/-- The identifier after a number of others. -/
def numbered (k : ℕ) : NcclId :=
  incrNcclId^[k] firstId

theorem value_numbered (k : ℕ) : (numbered k).value = k % idCount := by
  have zeros : ∀ n, bytesValue (List.replicate n 0) = 0 := by
    intro n
    induction n with
    | zero => rfl
    | succ n ih => simp [List.replicate_succ, ih]
  rw [numbered, value_iterate]
  simp only [NcclId.value, firstId, zeros, zero_add]

theorem numbered_eq_iff {i j : ℕ} : numbered i = numbered j ↔ i % idCount = j % idCount := by
  rw [← value_numbered, ← value_numbered]
  exact ⟨fun same => same ▸ rfl, NcclId.value_injective⟩

theorem iterate_numbered (i k : ℕ) : incrNcclId^[i] (numbered k) = numbered (k + i) := by
  rw [numbered, numbered, add_comm, Function.iterate_add_apply]

/-- Some identifiers in a row are distinct and not among those before unless the count starts
again. -/
theorem fresh_iff {k m : ℕ} (some_ : m ≠ 0) :
    ((List.iterate incrNcclId (numbered k) m).Nodup ∧
      ∀ id ∈ List.iterate incrNcclId (numbered k) m, id ∉ (List.range k).map numbered) ↔
      k + m ≤ idCount := by
  have row : List.iterate incrNcclId (numbered k) m =
      (List.range m).map fun i => numbered (k + i) := by
    rw [← List.range_map_iterate]
    exact List.map_congr_left fun i _ => iterate_numbered i k
  rw [row, List.nodup_map_iff_inj_on List.nodup_range]
  simp only [List.mem_range, List.mem_map, forall_exists_index, and_imp, not_exists, not_and]
  constructor
  · rintro ⟨distinct, new⟩
    by_contra exceeds
    have again : numbered (k + (m - 1)) = numbered (k + (m - 1) - idCount) := by
      apply numbered_eq_iff.mpr
      apply Nat.mod_eq_sub_mod
      omega
    have positive : 0 < idCount := Nat.pow_pos (by omega)
    by_cases earlier : k + (m - 1) - idCount < k
    · exact new _ _ (by omega) rfl _ earlier again.symm
    · have offset : k + (m - 1) - idCount = k + (m - 1 - idCount) := by omega
      rw [offset] at again
      have same := distinct _ (by omega) _ (by omega) again
      omega
  · intro room
    refine ⟨?_, ?_⟩
    · intro i left j right same
      rw [numbered_eq_iff, Nat.mod_eq_of_lt (by omega), Nat.mod_eq_of_lt (by omega)] at same
      omega
    · rintro _ i left rfl j earlier same
      rw [numbered_eq_iff, Nat.mod_eq_of_lt (by omega), Nat.mod_eq_of_lt (by omega)] at same
      omega

namespace Simulator

variable {env : Environment} {sim sim' : Simulator}

/-- The members of a communicator that is split, in the order of the hash map. -/
def splitInfos (env : Environment) (stamp : ℕ) (waiting : SplitWaiting) : List SplitInfo :=
  (env.order stamp waiting.joinedRanks).map Prod.snd

/-- The members of every color, in the order of the hash map. -/
def splitGroups (env : Environment) (stamp : ℕ) (waiting : SplitWaiting) :
    List (ℤ × List SplitInfo) :=
  env.order stamp (Grouping.group SplitInfo.color
    ((splitInfos env stamp waiting).filter fun info => info.color ≠ ncclSplitNocolor))

def byKey (members : List SplitInfo) : List SplitInfo :=
  members.insertionSort fun a b => a.key ≤ b.key

/-- The new communicators with their members by rank. -/
def newComms (id : NcclId) (groups : List (ℤ × List SplitInfo)) : List (NcclId × List SplitInfo) :=
  (List.iterate incrNcclId id groups.length).zip (groups.map fun group => byKey group.2)

def splitReply (time : ℤ) (notice : Notice NcclId SplitInfo) : ResponseId × Response :=
  (notice.member.host, .split notice.position notice.size notice.name time)

def noColorReply (info : SplitInfo) : ResponseId × Response :=
  (info.host, .noColor)

/-- The table of the communicators with new ones. -/
def addComms (table : NcclId → Option Ranks) (comms : List (NcclId × List SplitInfo)) :
    NcclId → Option Ranks :=
  comms.foldl (fun table comm =>
    Function.update table comm.1
      (some (comm.2.map fun info => (info.host.host, info.device)))) table

theorem formCommunicator_eq (time : ℤ) (sim : Simulator) (members : List SplitInfo) :
    ∃ hostTimes, sim.formCommunicator time members = { sim with
      hostTimes := hostTimes
      ncclUniqueId := incrNcclId sim.ncclUniqueId
      sent := ((notices (sim.ncclUniqueId, byKey members)).map
        (splitReply time)).reverse ++ sim.sent
      commGroups := addComms sim.commGroups [(sim.ncclUniqueId, byKey members)] } := by
  have answers : ∀ (entries : List (SplitInfo × ℕ)) (size : ℕ) (id : NcclId) (sim : Simulator),
      ∃ hostTimes, entries.foldl (fun sim entry =>
        (sim.sendResponseTo entry.1.host (.split entry.2 size id time)).updateHostSync
          entry.1.host.host time none) sim = { sim with
        hostTimes := hostTimes
        sent := (entries.map fun entry =>
          splitReply time ⟨entry.1, entry.2, size, id⟩).reverse ++ sim.sent } := by
    intro entries size id
    induction entries with
    | nil => exact fun sim => ⟨sim.hostTimes, rfl⟩
    | cons entry entries ih =>
        intro sim
        rcases ih ((sim.sendResponseTo entry.1.host (.split entry.2 size id time)).updateHostSync
          entry.1.host.host time none) with ⟨hostTimes, same⟩
        refine ⟨hostTimes, ?_⟩
        rw [List.foldl_cons, same, List.map_cons, List.reverse_cons, List.append_assoc]
        rfl
  rcases answers (byKey members).zipIdx (byKey members).length sim.ncclUniqueId
    { sim with ncclUniqueId := incrNcclId sim.ncclUniqueId } with ⟨hostTimes, same⟩
  refine ⟨hostTimes, ?_⟩
  unfold byKey at same ⊢
  simp only [formCommunicator]
  rw [same, notices, List.map_map]
  rfl

theorem splitCommunicator_eq (env : Environment) (sim : Simulator) (time : ℤ)
    (waiting : SplitWaiting) :
    ∃ hostTimes, sim.splitCommunicator env time waiting = { sim with
      hostTimes := hostTimes
      ncclUniqueId :=
        incrNcclId^[(splitGroups env sim.handled waiting).length] sim.ncclUniqueId
      sent :=
        ((announce (newComms sim.ncclUniqueId (splitGroups env sim.handled waiting))).map
          (splitReply time)).reverse ++
        (((splitInfos env sim.handled waiting).filter fun info =>
          info.color = ncclSplitNocolor).map noColorReply).reverse ++ sim.sent
      commGroups := addComms sim.commGroups
        (newComms sim.ncclUniqueId (splitGroups env sim.handled waiting)) } := by
  have refusals : ∀ (infos : List SplitInfo) (sim : Simulator),
      infos.foldl (fun sim info => sim.sendResponseTo info.host .noColor) sim =
        { sim with sent := (infos.map noColorReply).reverse ++ sim.sent } := by
    intro infos
    induction infos with
    | nil => exact fun sim => rfl
    | cons info infos ih =>
        intro sim
        rw [List.foldl_cons, ih, List.map_cons, List.reverse_cons, List.append_assoc]
        rfl
  have forms : ∀ (groups : List (ℤ × List SplitInfo)) (sim : Simulator),
      ∃ hostTimes, groups.foldl (fun sim group => sim.formCommunicator time group.2) sim =
        { sim with
          hostTimes := hostTimes
          ncclUniqueId := incrNcclId^[groups.length] sim.ncclUniqueId
          sent := ((announce (newComms sim.ncclUniqueId groups)).map (splitReply time)).reverse ++
            sim.sent
          commGroups := addComms sim.commGroups (newComms sim.ncclUniqueId groups) } := by
    intro groups
    induction groups with
    | nil => exact fun sim => ⟨sim.hostTimes, rfl⟩
    | cons group groups ih =>
        intro sim
        rcases formCommunicator_eq time sim group.2 with ⟨middleTimes, formed⟩
        rcases ih (sim.formCommunicator time group.2) with ⟨hostTimes, same⟩
        refine ⟨hostTimes, ?_⟩
        have comms : newComms sim.ncclUniqueId (group :: groups) =
            (sim.ncclUniqueId, byKey group.2) ::
            newComms (incrNcclId sim.ncclUniqueId) groups := rfl
        rw [List.foldl_cons, same, formed, comms, announce_cons, List.map_append,
          List.reverse_append, List.append_assoc]
        rfl
  rcases forms (splitGroups env sim.handled waiting) { sim with
    sent := (((splitInfos env sim.handled waiting).filter fun info =>
      info.color = ncclSplitNocolor).map noColorReply).reverse ++ sim.sent } with ⟨hostTimes, same⟩
  refine ⟨hostTimes, ?_⟩
  simp only [splitCommunicator]
  rw [refusals, List.append_assoc]
  exact same

/-- What the server remembers of a rank that joins a split. -/
def splitInfo (hosts : Ranks) (host : ResponseId) (color key : ℤ) : SplitInfo :=
  ⟨host, ((hosts.find? fun member => member.1 = host.host).map Prod.snd).getD 0, color, key⟩

/-- What a split message does once the queue has run to its time. -/
def splitRank (env : Environment) (sim : Simulator) (host : ResponseId) (time : ℤ)
    (comm : NcclComm) (color key : ℤ) : Simulator :=
  match sim.commGroups comm.id with
  | some hosts =>
      match sim.splitWaiting comm.id with
      | none =>
          { sim with
            splitWaiting := Function.update sim.splitWaiting comm.id
              (some ⟨[(comm.rank, splitInfo hosts host color key)],
                otherRanks hosts.length comm.rank⟩) }
      | some waiting =>
          let waiting := joinSplit waiting comm.rank (splitInfo hosts host color key)
          if waiting.waitingFor = ∅ then
            { sim.splitCommunicator env time waiting with
              splitWaiting := Function.update (sim.splitCommunicator env time waiting).splitWaiting
                comm.id none }
          else
            { sim with splitWaiting := Function.update sim.splitWaiting comm.id (some waiting) }
  | none => sim.sendResponseTo host (.split 0 0 unknownNcclId time)

theorem ncclCommSplit_splitRank {host : ResponseId} {time color key : ℤ} {comm : NcclComm}
    (run : sim.ncclCommSplit env host time comm color key = .ok sim') :
    ∃ middle stopped, executeToTime env time env.fuel sim = .ok (middle, stopped) ∧
      sim' = middle.splitRank env host time comm color key := by
  simp only [ncclCommSplit, bind_eq_ok, Prod.exists] at run
  rcases run with ⟨middle, stopped, executed, run⟩
  refine ⟨middle, stopped, executed, ?_⟩
  split at run
  · rename_i hosts known
    split at run
    · rename_i waits
      simp only [pure_eq_ok] at run
      simp only [splitRank, known, waits, ← run]
      rfl
    · rename_i waiting waits
      split at run
      · rename_i complete
        simp only [pure_eq_ok] at run
        simp only [splitRank, known, waits, ← run]
        exact (if_pos complete).symm
      · rename_i missing
        simp only [pure_eq_ok] at run
        simp only [splitRank, known, waits, ← run]
        exact (if_neg missing).symm
  · rename_i unknown
    simp only [pure_eq_ok] at run
    simp only [splitRank, unknown, ← run]

/-- The ways in which a split message changes the server. -/
inductive Splits (env : Environment) (sim : Simulator) (host : ResponseId) (time : ℤ)
    (comm : NcclComm) (color key : ℤ) (sim' : Simulator) : Prop where
  | unknown : sim.commGroups comm.id = none →
      sim' = sim.sendResponseTo host (.split 0 0 unknownNcclId time) →
      Splits env sim host time comm color key sim'
  | first {hosts : Ranks} : sim.commGroups comm.id = some hosts →
      sim.splitWaiting comm.id = none →
      sim' = { sim with
        splitWaiting := Function.update sim.splitWaiting comm.id
          (some ⟨[(comm.rank, splitInfo hosts host color key)],
            otherRanks hosts.length comm.rank⟩) } →
      Splits env sim host time comm color key sim'
  | next {hosts : Ranks} {waiting joined : SplitWaiting} : sim.commGroups comm.id = some hosts →
      sim.splitWaiting comm.id = some waiting →
      joined = joinSplit waiting comm.rank (splitInfo hosts host color key) →
      joined.waitingFor ≠ ∅ →
      sim' = { sim with
        splitWaiting := Function.update sim.splitWaiting comm.id (some joined) } →
      Splits env sim host time comm color key sim'
  | last {hosts : Ranks} {waiting joined : SplitWaiting} {infos : List SplitInfo}
      {comms : List (NcclId × List SplitInfo)} {hostTimes : HostId → Option HostTime} :
      sim.commGroups comm.id = some hosts → sim.splitWaiting comm.id = some waiting →
      joined = joinSplit waiting comm.rank (splitInfo hosts host color key) →
      joined.waitingFor = ∅ → infos = splitInfos env sim.handled joined →
      comms = newComms sim.ncclUniqueId (splitGroups env sim.handled joined) →
      sim' = { sim with
        hostTimes := hostTimes
        ncclUniqueId := incrNcclId^[comms.length] sim.ncclUniqueId
        sent := ((announce comms).map (splitReply time)).reverse ++
          ((infos.filter fun info => info.color = ncclSplitNocolor).map noColorReply).reverse ++
          sim.sent
        commGroups := addComms sim.commGroups comms
        splitWaiting := Function.update sim.splitWaiting comm.id none } →
      Splits env sim host time comm color key sim'

@[simp]
theorem length_newComms (id : NcclId) (groups : List (ℤ × List SplitInfo)) :
    (newComms id groups).length = groups.length := by
  simp [newComms]

theorem splitRank_splits (env : Environment) (sim : Simulator) (host : ResponseId) (time : ℤ)
    (comm : NcclComm) (color key : ℤ) :
    Splits env sim host time comm color key (sim.splitRank env host time comm color key) := by
  unfold splitRank
  split
  · rename_i hosts known
    split
    · rename_i waits
      exact .first known waits rfl
    · rename_i waiting waits
      dsimp only
      split
      · rename_i complete
        rcases splitCommunicator_eq env sim time
          (joinSplit waiting comm.rank (splitInfo hosts host color key)) with ⟨hostTimes, same⟩
        apply Splits.last known waits rfl complete rfl rfl
        rw [same, length_newComms]
      · rename_i missing
        exact .next known waits rfl missing rfl
  · rename_i unknown
    exact .unknown unknown rfl

/-- The parts of a communicator: one for each color, with the members of that color in their
order. -/
theorem splitGroups_spec (env : Environment) (stamp : ℕ) (waiting : SplitWaiting) :
    ((splitGroups env stamp waiting).map Prod.fst).Nodup ∧
      (∀ color, color ∈ (splitGroups env stamp waiting).map Prod.fst ↔
        color ≠ ncclSplitNocolor ∧ color ∈ (splitInfos env stamp waiting).map SplitInfo.color) ∧
      ∀ group ∈ splitGroups env stamp waiting,
        group.2 = (splitInfos env stamp waiting).filter fun info => info.color = group.1 := by
  rcases Grouping.group_spec SplitInfo.color ((splitInfos env stamp waiting).filter fun info =>
    info.color ≠ ncclSplitNocolor) with ⟨nodup, colors, members⟩
  have perm := (env.order_perm stamp (Grouping.group SplitInfo.color
    ((splitInfos env stamp waiting).filter fun info => info.color ≠ ncclSplitNocolor))).map Prod.fst
  have color_iff : ∀ color, color ∈ (splitGroups env stamp waiting).map Prod.fst ↔
      color ≠ ncclSplitNocolor ∧ color ∈ (splitInfos env stamp waiting).map SplitInfo.color := by
    intro color
    rw [splitGroups, perm.mem_iff, colors]
    simp only [List.mem_map, List.mem_filter, decide_eq_true_eq]
    constructor
    · rintro ⟨info, ⟨mem, colored⟩, rfl⟩
      exact ⟨colored, info, mem, rfl⟩
    · rintro ⟨colored, info, mem, rfl⟩
      exact ⟨info, ⟨mem, colored⟩, rfl⟩
  refine ⟨perm.nodup_iff.mpr nodup, color_iff, ?_⟩
  intro group mem
  have colored := ((color_iff group.1).mp (List.mem_map_of_mem mem)).1
  rw [splitGroups, Platform.mem_order] at mem
  rw [members group.1 group.2 mem, List.filter_filter]
  refine List.filter_congr fun info _ => ?_
  by_cases same : info.color = group.1
  · simp [same, colored]
  · simp [same]

theorem newComms_nonempty {env : Environment} {stamp : ℕ} {waiting : SplitWaiting} {id : NcclId} :
    ∀ comm ∈ newComms id (splitGroups env stamp waiting), comm.2 ≠ [] := by
  intro comm mem empty
  rcases splitGroups_spec env stamp waiting with ⟨_, colors, members⟩
  rcases List.mem_map.mp (List.of_mem_zip mem).2 with ⟨group, inGroups, sorted⟩
  rw [empty, byKey, ← List.length_eq_zero_iff, List.length_insertionSort,
    List.length_eq_zero_iff] at sorted
  rw [members group inGroups] at sorted
  rcases List.mem_map.mp ((colors group.1).mp (List.mem_map_of_mem inGroups)).2 with
    ⟨info, inInfos, color⟩
  exact List.filter_eq_nil_iff.mp sorted info inInfos (by simpa using color)

/-- The members of the new communicators are those that have a color. -/
theorem members_newComms (env : Environment) (stamp : ℕ) (waiting : SplitWaiting) (id : NcclId) :
    ((newComms id (splitGroups env stamp waiting)).flatMap Prod.snd).Perm
      ((splitInfos env stamp waiting).filter fun info => info.color ≠ ncclSplitNocolor) := by
  have sorted : ∀ groups : List (ℤ × List SplitInfo),
      ((newComms id groups).flatMap Prod.snd).Perm (groups.flatMap Prod.snd) := by
    intro groups
    induction groups generalizing id with
    | nil => exact .refl _
    | cons group groups ih =>
        exact (List.perm_insertionSort _ group.2).append (ih (incrNcclId id))
  refine (sorted _).trans (.trans ?_ (Grouping.group_perm SplitInfo.color _))
  exact (env.order_perm stamp _).flatMap_right Prod.snd

theorem names_newComms (id : NcclId) (groups : List (ℤ × List SplitInfo)) :
    (newComms id groups).map Prod.fst = List.iterate incrNcclId id groups.length := by
  apply List.map_fst_zip
  simp

end Simulator

/-- The identifier that a response is the first to hand out. -/
def Response.issued? : Response → Option NcclId
  | .uniqueId id => some id
  | .split rank nranks id _ => if rank = 0 ∧ 0 < nranks then some id else none
  | _ => none

theorem Response.issued?_eq_none {response : Response} (other : response.ofComm = false) :
    response.issued? = none := by
  cases response with
  | sync => rfl
  | query => rfl
  | uniqueId => cases other
  | split => cases other
  | noColor => cases other

namespace Simulator

variable {env : Environment} {sim sim' : Simulator}

/-- The identifiers that the server has issued, the last first. -/
def issuedIds (sim : Simulator) : List NcclId :=
  sim.sent.filterMap fun reply => reply.2.issued?

/-- The identifiers issued are the first ones of the count, and the next one follows. -/
structure Counted (sim : Simulator) : Prop where
  next : sim.ncclUniqueId = numbered sim.issuedIds.length
  issued : sim.issuedIds.Perm ((List.range sim.issuedIds.length).map numbered)

theorem issued_announce {comms : List (NcclId × List SplitInfo)} (time : ℤ)
    (nonempty : ∀ comm ∈ comms, comm.2 ≠ []) :
    ((announce comms).map (splitReply time)).filterMap (fun reply => reply.2.issued?) =
      comms.map Prod.fst := by
  rw [← firsts_announce nonempty, List.filterMap_map, ← List.filterMap_eq_map,
    ← List.filterMap_eq_filter, List.filterMap_filterMap]
  apply List.filterMap_congr
  intro notice mem
  have inside := position_lt_size mem
  have positive : ¬notice.size = 0 := by omega
  by_cases first : notice.position = 0
  · simp [splitReply, Response.issued?, first, positive, Option.guard]
  · simp [splitReply, Response.issued?, first, Option.guard]

theorem issuedIds_of_append {news : List (ResponseId × Response)}
    (sent : sim'.sent = news ++ sim.sent) :
    sim'.issuedIds = news.filterMap (fun reply => reply.2.issued?) ++ sim.issuedIds := by
  rw [issuedIds, sent, List.filterMap_append]
  rfl

theorem CommsKept.issuedIds (kept : CommsKept sim sim') : sim'.issuedIds = sim.issuedIds := by
  rcases kept.sent with ⟨news, sent, noComm⟩
  rw [issuedIds_of_append sent, List.filterMap_eq_nil_iff.mpr, List.nil_append]
  exact fun reply mem => Response.issued?_eq_none (noComm reply mem)

theorem Counted.of_same (counted : Counted sim) (next : sim'.ncclUniqueId = sim.ncclUniqueId)
    (issued : sim'.issuedIds = sim.issuedIds) : Counted sim' :=
  ⟨by rw [next, issued, counted.next], by rw [issued]; exact counted.issued⟩

/-- A number of further identifiers is issued. -/
theorem Counted.issue (counted : Counted sim) (ids : List NcclId)
    (next : sim'.ncclUniqueId = incrNcclId^[ids.length] sim.ncclUniqueId)
    (row : ids.Perm (List.iterate incrNcclId sim.ncclUniqueId ids.length))
    (issued : sim'.issuedIds = ids ++ sim.issuedIds) : Counted sim' := by
  have length : sim'.issuedIds.length = sim.issuedIds.length + ids.length := by
    rw [issued, List.length_append, add_comm]
  refine ⟨?_, ?_⟩
  · rw [next, counted.next, iterate_numbered, length]
  · rw [length, issued, List.range_add, List.map_append]
    refine List.perm_append_comm.trans (counted.issued.append (row.trans (.of_eq ?_)))
    rw [counted.next, ← List.range_map_iterate, List.map_map]
    exact List.map_congr_left fun i _ => iterate_numbered i _

theorem Splits.counted {host : ResponseId} {time color key : ℤ} {comm : NcclComm}
    (splits : Splits env sim host time comm color key sim') (counted : Counted sim) :
    Counted sim' := by
  cases splits with
  | unknown _ same => exact counted.of_same (same ▸ rfl) (same ▸ rfl)
  | first _ _ same => exact counted.of_same (same ▸ rfl) (same ▸ rfl)
  | next _ _ _ _ same => exact counted.of_same (same ▸ rfl) (same ▸ rfl)
  | @last _ _ joined infos comms _ _ _ _ _ _ formed same =>
      have nonempty : ∀ comm ∈ comms, comm.2 ≠ [] := formed ▸ newComms_nonempty
      have ids : comms.map Prod.fst = List.iterate incrNcclId sim.ncclUniqueId comms.length := by
        rw [formed, names_newComms, length_newComms]
      have refusals : (((infos.filter fun info => info.color = ncclSplitNocolor).map
          noColorReply).reverse).filterMap (fun reply => reply.2.issued?) = [] := by
        apply List.filterMap_eq_nil_iff.mpr
        intro reply mem
        rcases List.mem_map.mp (List.mem_reverse.mp mem) with ⟨info, _, rfl⟩
        rfl
      refine counted.issue (comms.map Prod.fst).reverse ?_ ?_ ?_
      · rw [same, List.length_reverse, List.length_map]
      · rw [List.length_reverse, List.length_map, ids]
        exact List.reverse_perm _
      · rw [same, issuedIds, List.filterMap_append, List.filterMap_append, List.filterMap_reverse,
          issued_announce time nonempty, refusals, List.append_nil]
        rfl

theorem inits_counted {host : ResponseId} {time device rank nranks : ℤ} {id : NcclId}
    (inits : Rendezvous.Inits sim host time device rank nranks id sim') (counted : Counted sim) :
    Counted sim' := by
  cases inits with
  | first _ same => exact counted.of_same (same ▸ rfl) (same ▸ rfl)
  | next _ _ same => exact counted.of_same (same ▸ rfl) (same ▸ rfl)
  | @last _ members _ _ _ _ same =>
      have silent : ((members.map fun member => (member.1, Response.sync time)).reverse).filterMap
          (fun reply => reply.2.issued?) = [] := by
        apply List.filterMap_eq_nil_iff.mpr
        intro reply mem
        rcases List.mem_map.mp (List.mem_reverse.mp mem) with ⟨member, _, rfl⟩
        rfl
      refine counted.of_same ?_ ?_
      · rw [same]
      · rw [same, issuedIds, List.filterMap_append, silent]
        rfl

/-- Handle a message, a split with the hash maps in the order of other surroundings. -/
def handleIn (env hashing : Environment) (sim : Simulator) : Message → Except Panic Simulator
  | .cuda ⟨host, time, .ncclCommSplit comm color key⟩ => do
      let (sim, _) ← executeToTime env time env.fuel (sim.updateHostCurr host.host time)
      let sim := sim.splitRank hashing host time comm color key
      return { sim with handled := sim.handled + 1 }
  | message => sim.handle env message

theorem handleIn_split {hashing : Environment} {host : ResponseId} {time color key : ℤ}
    {comm : NcclComm}
    (run : sim.handleIn env hashing
      (.cuda ⟨host, time, .ncclCommSplit comm color key⟩) = .ok sim') :
    ∃ middle, CommsKept sim middle ∧
      sim' = { middle.splitRank hashing host time comm color key with
        handled := (middle.splitRank hashing host time comm color key).handled + 1 } := by
  simp only [handleIn, bind_eq_ok, Prod.exists, pure_eq_ok] at run
  rcases run with ⟨middle, stopped, executed, rfl⟩
  exact ⟨middle, Rendezvous.runTo_commsKept executed, rfl⟩

theorem handleIn_of_handle {message : Message} (run : sim.handle env message = .ok sim') :
    sim.handleIn env env message = .ok sim' := by
  unfold handleIn
  split
  · rcases handle_eq_ok run with ⟨final, dispatched, rfl⟩
    simp only [dispatch, handleCudaCall] at dispatched
    rcases ncclCommSplit_splitRank dispatched with ⟨middle, stopped, executed, rfl⟩
    simp only [bind_eq_ok, Prod.exists, pure_eq_ok]
    exact ⟨middle, stopped, executed, rfl⟩
  · exact run

/-- The order of the hash maps does not decide whether a split succeeds. -/
theorem handleIn_ok {message : Message} (run : sim.handle env message = .ok sim')
    (hashing : Environment) : ∃ other, sim.handleIn env hashing message = .ok other := by
  unfold handleIn
  split
  · rcases handle_eq_ok run with ⟨final, dispatched, rfl⟩
    simp only [dispatch, handleCudaCall] at dispatched
    rcases ncclCommSplit_splitRank dispatched with ⟨middle, stopped, executed, rfl⟩
    rw [executed]
    exact ⟨_, rfl⟩
  · exact ⟨_, run⟩

theorem Counted.handle {message : Message} (counted : Counted sim) (named : Named sim)
    (run : sim.handle env message = .ok sim') : Counted sim' := by
  by_cases manages : message.Manages
  · cases message with
    | torch call => exact absurd manages (fun false => false)
    | exit host time => exact absurd manages (fun false => false)
    | cuda msg =>
        rcases msg with ⟨host, time, call⟩
        cases call with
        | ncclGetUniqueId =>
            rcases handle_eq_ok run with ⟨final, dispatched, rfl⟩
            simp only [dispatch, handleCudaCall, Except.ok.injEq] at dispatched
            subst final
            exact counted.issue [sim.ncclUniqueId] rfl (.refl _) rfl
        | ncclCommInitRank device rank nranks id =>
            rcases handle_eq_ok run with ⟨final, dispatched, rfl⟩
            simp only [dispatch, handleCudaCall] at dispatched
            rcases Rendezvous.ncclCommInitRank_inits dispatched with ⟨middle, _, executed, inits⟩
            have kept := Rendezvous.runTo_commsKept executed
            have joined := inits_counted inits (counted.of_same kept.ncclUniqueId kept.issuedIds)
            exact joined.of_same rfl rfl
        | ncclCommSplit comm color key =>
            rcases handleIn_split (handleIn_of_handle run) with ⟨middle, kept, rfl⟩
            have before := counted.of_same kept.ncclUniqueId kept.issuedIds
            exact ((splitRank_splits env middle host time comm color key).counted before).of_same
              rfl rfl
        | _ => exact absurd manages (fun false => false)
  · have kept := (handle_advances named manages run).acts.commsKept
    exact counted.of_same kept.ncclUniqueId kept.issuedIds

/-- In every state reached the identifiers issued are the first ones of the count. -/
theorem counted_of_reached {messages : List Message} (reached : Reached env messages sim) :
    Counted sim := by
  have both : Named sim ∧ Counted sim := by
    refine reached.invariant (fun _ sim => Named sim ∧ Counted sim) ?_ ?_
    · intro sim initial
      refine ⟨named_initial initial, ?_⟩
      rcases initial with ⟨cluster, setting, hostMapping, rfl⟩
      exact ⟨rfl, .refl _⟩
    · intro _ sim _ sim' ⟨named, counted⟩ step
      exact ⟨handle_named named step, counted.handle named step⟩
  exact both.2

end Simulator

end Phantora
