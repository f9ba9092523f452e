import BoundedMap.Proofs.Bench.Agreement
import BoundedMap.Proofs.Bench.Drawing
/-!
# Samples have as many values as are asked for

Shares are rounded down, so all of them together never have too many values, however they overlap;
what is missing is drawn in the end. This holds at every moment at which parties draw side by side,
and in whatever order they take their turns (`Traced`). What they come to is what `sample` comes to
for one of the orders in which the shares can come in, and each of these orders can be had
(`outcome_iff`). The values themselves come out in any order, of which `sample` answers one. The
main statement is `outcome_distinct`.
-/

namespace BoundedMap.Bench

open Session (Step Reachable Outcome)

variable {parties size len limit : Nat} {draw : Draws} {others order : List Draws}
  {s t : Session} {own p q : Party} {got sent : List Party} {data sampled : List Int64}

/-! ## Workloads on distinct values -/

/-- No look-up and no removal of a workload fails on these data. A map of fixed capacity is refused
if handles cannot name so many slots, before anything is stored in it. -/
structure Passes (data : List Int64) : Prop where
  pooled : data.length ≤ maxCapacity → ∃ m, pooled.runWithChurn data = .ok m
  refused : maxCapacity < data.length → Bench.pooled.runWithChurn data =
    .error (.failed (.refused (.capacityOverflow data.length maxCapacity)))
  sorted : ∃ t, sorted.run data = .ok t

theorem runWithChurn_refused (large : maxCapacity < data.length) : pooled.runWithChurn data =
    .error (.failed (.refused (.capacityOverflow data.length maxCapacity))) := by
  have refused : pooled.empty data.length =
      .error (.refused (.capacityOverflow data.length maxCapacity)) := by
    simp only [pooled, Map.withCapacity_of_large Order.ascending large]
  have stopped : pooled.add data =
      .error (.failed (.refused (.capacityOverflow data.length maxCapacity))) := by
    rw [Subject.add, refused]
    rfl
  rw [Subject.runWithChurn, stopped]
  rfl

theorem passes_of_nodup (nodup : data.Nodup) : Passes data where
  pooled small := by
    obtain ⟨-, -, -, -, -, -, -, ends⟩ := runWithChurn_ends (pooled_faithful small)
    exact ends.ok_iff.2 nodup
  refused := runWithChurn_refused
  sorted := by
    obtain ⟨-, -, -, -, ends⟩ := run_ends (sorted_faithful data.length)
    exact ends.ok_iff.2 nodup

/-! ## Shares -/

/-- All shares together fit into the sample. -/
theorem share_mul_le (count : others.length + 1 = max parties 1) :
    share parties len * (others.length + 1) ≤ len := by
  rw [count]
  exact Nat.div_mul_le_self len (max parties 1)

theorem share_eq (count : others.length + 1 = max parties 1) :
    share (others.length + 1) len = share parties len := by
  rw [share, share, count, Nat.max_eq_left (Nat.le_max_right parties 1)]

/-- A party with the shares of others merged into its own. -/
def Party.merged (own : Party) (got : List Party) : Party :=
  { own with seen := (got.map seen).foldl absorb own.seen }

theorem merged_concat : own.merged (got ++ [q]) = (own.merged got).take q.seen := by
  simp only [Party.merged, Party.take, List.map_append, List.foldl_append, List.map_cons,
    List.map_nil, List.foldl_cons, List.foldl_nil]

theorem size_merged_le (full : ∀ q ∈ got, q.Full size) :
    (own.merged got).seen.size ≤ own.seen.size + size * got.length := by
  rw [← List.length_map (f := Party.seen)]
  refine size_foldl_absorb_le fun c member => ?_
  obtain ⟨q, there, rfl⟩ := List.mem_map.1 member
  exact Nat.le_of_eq (full q there).size_eq

/-- A sample as it is made: the first party has its own share and those of the others, and has drawn
what was missing. -/
structure Assembled (size len : Nat) (own : Party) (got : List Party) (p : Party) : Prop where
  share : own.Full size
  shares : ∀ q ∈ got, q.Full size
  advances : (own.merged got).Advances len p
  full : len ≤ p.seen.size

/-- From some limit on, parties that are filled come to their shares one after another. -/
theorem exists_shares (full : ∀ q ∈ got, q.Full size) : ∃ k, ∀ limit, k ≤ limit →
    (got.map Party.draws).mapM (fun d => (·.1) <$> fill d size limit 0 ∅) =
      some (got.map Party.seen) := by
  induction got with
  | nil => exact ⟨0, fun _ _ => rfl⟩
  | cons q rest ih =>
    obtain ⟨k, first⟩ := (full q List.mem_cons_self).fill
    obtain ⟨j, later⟩ := ih fun r member => full r (List.mem_cons_of_mem q member)
    refine ⟨max k j, fun limit enough => ?_⟩
    rw [List.map_cons, List.mapM_cons, first limit (by omega), later limit (by omega)]
    rfl

theorem full_of_shares {chunks : List (Std.HashSet Int64)}
    (drawn : order.mapM (fun d => (·.1) <$> fill d size limit 0 ∅) = some chunks) :
    ∃ got : List Party, got.map Party.draws = order ∧ got.map Party.seen = chunks ∧
      ∀ q ∈ got, q.Full size := by
  induction order generalizing chunks with
  | nil =>
    cases drawn
    exact ⟨[], rfl, rfl, by simp⟩
  | cons d rest ih =>
    rw [List.mapM_cons] at drawn
    obtain ⟨c, first, more⟩ := Option.bind_eq_some_iff.1 drawn
    obtain ⟨cs, later, same⟩ := Option.bind_eq_some_iff.1 more
    obtain ⟨⟨c, n⟩, filled, rfl⟩ := Option.map_eq_some_iff.1 first
    obtain ⟨q, full, rfl, rfl, -⟩ := full_of_fill filled
    obtain ⟨got, rfl, rfl, allFull⟩ := ih later
    cases same
    exact ⟨q :: got, rfl, rfl, List.forall_mem_cons.2 ⟨full, allFull⟩⟩

/-- A sample of the parties one after another is one that is assembled from their shares. -/
theorem exists_sample_iff : (∃ limit, sample limit draw order len = some sampled) ↔
    ∃ own got p, Assembled (share (order.length + 1) len) len own got p ∧ own.draws = draw ∧
      got.map Party.draws = order ∧ p.seen.toList = sampled := by
  constructor
  · rintro ⟨limit, answered⟩
    obtain ⟨chunks, drawn, completed⟩ := Option.bind_eq_some_iff.1 answered
    obtain ⟨⟨c, n⟩, first, more⟩ := Option.bind_eq_some_iff.1 completed
    obtain ⟨⟨all, n'⟩, last, same⟩ := Option.bind_eq_some_iff.1 more
    obtain ⟨got, rfl, rfl, allFull⟩ := full_of_shares drawn
    obtain ⟨own, full, rfl, rfl, rfl⟩ := full_of_fill first
    obtain ⟨p, advances, rfl, -, enough⟩ := advances_of_fill (p := own.merged got) last
    exact ⟨own, got, p, ⟨full, allFull, advances, enough⟩, rfl, rfl, Option.some.inj same⟩
  · rintro ⟨own, got, p, assembled, rfl, rfl, rfl⟩
    obtain ⟨k, shares⟩ := exists_shares assembled.shares
    obtain ⟨k₁, first⟩ := assembled.share.fill
    obtain ⟨k₂, last⟩ := assembled.advances.fill
    refine ⟨k + k₁ + k₂, ?_⟩
    have rest := last (k + k₁)
    rw [fill_of_full assembled.full, Nat.add_comm] at rest
    unfold sample
    show (List.mapM _ (got.map Party.draws) >>= _) = _
    rw [shares _ (by omega)]
    show (fill own.draws _ _ 0 ∅ >>= _) = _
    rw [first _ (by omega)]
    show (fill own.draws len _ own.next (own.merged got).seen >>= _) = _
    rw [show fill own.draws len _ own.next (own.merged got).seen = _ from rest]
    rfl

theorem exists_fill {d : Draws} (enough : size ≤ ((Finset.range limit).image d).card) :
    ∃ result, fill d size limit 0 ∅ = some result := by
  apply fill_ends
  rw [Nat.zero_add, ← Finset.range_eq_Ico]
  exact Nat.le_trans enough (Finset.card_le_card Finset.subset_union_right)

/-- A sample is complete in the end if each of the others can draw its share, and the first party
the whole sample. -/
theorem sample_ends (enough : len ≤ ((Finset.range limit).image draw).card)
    (shares : ∀ d ∈ others, share (others.length + 1) len ≤ ((Finset.range limit).image d).card) :
    ∃ data, sample limit draw others len = some data := by
  have drawn : ∃ chunks, others.mapM (fun d =>
      (·.1) <$> fill d (share (others.length + 1) len) limit 0 ∅) = some chunks := by
    generalize share (others.length + 1) len = size at shares
    induction others with
    | nil => exact ⟨[], rfl⟩
    | cons d rest ih =>
      obtain ⟨result, first⟩ := exists_fill (shares d List.mem_cons_self)
      obtain ⟨chunks, later⟩ := ih fun e member => shares e (List.mem_cons_of_mem d member)
      refine ⟨result.1 :: chunks, ?_⟩
      rw [List.mapM_cons, first, later]
      rfl
  obtain ⟨chunks, drawn⟩ := drawn
  have part : share (others.length + 1) len ≤ len := Nat.div_le_self len _
  obtain ⟨⟨c, n⟩, first⟩ := exists_fill (Nat.le_trans part enough)
  obtain ⟨own, full, rfl, rfl, rfl⟩ := full_of_fill first
  have last : ∃ result, fill own.draws len limit own.next (chunks.foldl absorb own.seen) =
      some result := by
    apply fill_ends
    refine Nat.le_trans enough (Finset.card_le_card fun v member => ?_)
    obtain ⟨i, early, rfl⟩ := Finset.mem_image.1 member
    rw [Finset.mem_range] at early
    rw [Finset.mem_union, List.mem_toFinset, Std.HashSet.mem_toList, mem_foldl_absorb]
    -- draws of the first party that it has made already are in its own share
    by_cases made : i < own.next
    · exact .inl (.inl (full.advances.drawn (Nat.zero_le i) made))
    · refine .inr (Finset.mem_image_of_mem _ (Finset.mem_Ico.2 ⟨Nat.le_of_not_lt made, ?_⟩))
      omega
  obtain ⟨⟨all, n⟩, last⟩ := last
  refine ⟨all.toList, ?_⟩
  unfold sample
  show (List.mapM _ others >>= _) = _
  rw [drawn]
  show (fill own.draws _ _ 0 ∅ >>= _) = _
  rw [first]
  show (fill own.draws len _ own.next _ >>= _) = _
  rw [last]
  rfl

/-! ## Parties side by side -/

/-- What the first party has in each stage, when it `got` the shares of some others. -/
inductive Course (size len : Nat) (draw : Draws) : Stage → List Party → Party → Prop
  | drawing {p : Party} : (Party.fresh draw).Advances size p → Course size len draw .drawing [] p
  | receiving {own : Party} {got : List Party} : own.Full size → own.draws = draw →
    Course size len draw .receiving got (own.merged got)
  | completing {own p : Party} {got : List Party} : own.Full size → own.draws = draw →
    (own.merged got).Advances len p → Course size len draw .completing got p
  | done {own p : Party} {got : List Party} : own.Full size → own.draws = draw →
    (own.merged got).Advances len p → len ≤ p.seen.size → Course size len draw .done got p

/-- What holds of a session at every moment. The first party `got` the shares of some others, those
of others were `sent`, and the rest is still drawing. -/
structure Traced (size len : Nat) (draw : Draws) (others : List Draws) (s : Session)
    (got sent : List Party) : Prop where
  channel : s.channel = sent.map Party.seen
  full : ∀ q ∈ got ++ sent, q.Full size
  working : ∀ q ∈ s.others, (Party.fresh q.draws).Advances size q
  everyone : ((got ++ sent ++ s.others).map Party.draws).Perm others
  alone : s.stage = .completing ∨ s.stage = .done → sent = [] ∧ s.others = []
  first : Course size len draw s.stage got s.first

theorem traced_start (size len : Nat) (draw : Draws) (others : List Draws) :
    Traced size len draw others (.start draw others) [] [] where
  channel := rfl
  full := by simp
  working := by
    intro q member
    obtain ⟨d, -, rfl⟩ := List.mem_map.1 member
    exact .refl
  everyone := by
    have same : (others.map Party.fresh).map Party.draws = others := by
      rw [List.map_map]
      exact List.map_id others
    simpa only [Session.start, List.nil_append, same] using List.Perm.refl others
  alone := by simp [Session.start]
  first := .drawing .refl

theorem traced_step (traced : Traced size len draw others s got sent) (step : Step size len s t) :
    ∃ got' sent', Traced size len draw others t got' sent' := by
  obtain ⟨channel, full, working, everyone, alone, first⟩ := traced
  cases step with
  | @shareDraw party p stage before after queue short =>
    refine ⟨got, sent, channel, full, ?_, ?_, ?_, first⟩
    · intro q member
      rcases List.mem_append.1 member with member | member
      · exact working q (List.mem_append_left _ member)
      · rcases List.mem_cons.1 member with rfl | member
        · exact .draw (working p (by simp)) short
        · exact working q (by simp [member])
    · have same : p.draw.draws = p.draws := rfl
      simpa [same] using everyone
    · intro late
      simpa using alone late
  | @send party p stage before after queue enough =>
    refine ⟨got, sent ++ [p], ?_, ?_, ?_, ?_, ?_, first⟩
    · simpa using channel
    · have leaves : p.Full size := ⟨working p (by simp), enough⟩
      simpa [or_imp, forall_and, leaves] using full
    · intro q member
      refine working q ?_
      rcases List.mem_append.1 member with member | member <;> simp [member]
    · refine List.Perm.trans (List.Perm.map _ ?_) everyone
      have moved : (p :: (before ++ after)).Perm (before ++ p :: after) := List.perm_middle.symm
      simpa using moved.append_left (got ++ sent)
    · intro late
      simpa using alone late
  | @draw party rest queue short =>
    cases first with
    | drawing advances =>
      exact ⟨[], sent, channel, full, working, everyone, by simp, .drawing (.draw advances short)⟩
  | @listen party rest queue enough =>
    cases first with
    | drawing advances =>
      have draws : party.draws = draw := advances.draws_eq
      have share : party.Full size := ⟨draws.symm ▸ advances, enough⟩
      refine ⟨[], sent, channel, full, working, everyone, by simp, ?_⟩
      show Course size len draw .receiving [] (party.merged [])
      exact .receiving share draws
  | @receive party rest chunk queue =>
    -- what is received is the share that was sent first
    cases sent with
    | nil => cases channel
    | cons q sent =>
      obtain ⟨rfl, remaining⟩ := List.cons.inj channel
      cases first with
      | @receiving own _ share draws =>
        refine ⟨got ++ [q], sent, remaining, ?_, working, ?_, by simp, ?_⟩
        · simpa using full
        · simpa using everyone
        · show Course size len draw .receiving (got ++ [q]) ((own.merged got).take q.seen)
          rw [← merged_concat]
          exact .receiving share draws
  | @hangUp party =>
    have none_sent : sent = [] := List.map_eq_nil_iff.1 channel.symm
    cases first with
    | receiving share draws =>
      exact ⟨got, sent, channel, full, working, everyone, fun _ => ⟨none_sent, rfl⟩,
        .completing share draws .refl⟩
  | @complete party rest queue short =>
    cases first with
    | completing share draws advances =>
      exact ⟨got, sent, channel, full, working, everyone, fun _ => alone (.inl rfl),
        .completing share draws (.draw advances short)⟩
  | @finish party rest queue enough =>
    cases first with
    | completing share draws advances =>
      exact ⟨got, sent, channel, full, working, everyone, fun _ => alone (.inl rfl),
        .done share draws advances enough⟩

theorem Session.Reachable.traced (reachable : Reachable parties len draw others s) :
    ∃ got sent, Traced (share parties len) len draw others s got sent := by
  induction reachable with
  | start => exact ⟨[], [], traced_start _ len draw others⟩
  | step _ step ih =>
    obtain ⟨got, sent, traced⟩ := ih
    exact traced_step traced step

namespace Traced

/-- Nobody is counted twice and nobody is forgotten. -/
theorem length_eq (traced : Traced size len draw others s got sent) :
    got.length + sent.length + s.others.length = others.length := by
  have everyone := traced.everyone.length_eq
  rwa [List.length_map, List.length_append, List.length_append] at everyone

/-- The first party never has more values than the sample. -/
theorem size_le (traced : Traced size len draw others s got sent)
    (fits : size * (others.length + 1) ≤ len) : s.first.seen.size ≤ len := by
  have few : size * (got.length + 1) ≤ len := by
    refine Nat.le_trans (Nat.mul_le_mul_left size ?_) fits
    have everyone := traced.length_eq
    omega
  rw [Nat.mul_succ] at few
  have merged : ∀ {own : Party}, own.Full size → (own.merged got).seen.size ≤ len := by
    intro own share
    have most : (own.merged got).seen.size ≤ own.seen.size + size * got.length :=
      size_merged_le fun q member => traced.full q (List.mem_append_left sent member)
    rw [share.size_eq] at most
    omega
  have first := traced.first
  generalize s.stage = stage at first
  generalize s.first = party at first ⊢
  cases first with
  | drawing advances =>
    have most := advances.size_le (Nat.zero_le size)
    omega
  | receiving share _ => exact merged share
  | completing share _ advances => exact advances.size_le (merged share)
  | done share _ advances _ => exact advances.size_le (merged share)

/-- The parties still have a turn to take while the sample is not complete. -/
theorem exists_step (traced : Traced size len draw others s got sent)
    (unfinished : s.stage ≠ .done) : ∃ t, Step size len s t := by
  have alone := traced.alone
  obtain ⟨party, stage, rest, queue⟩ := s
  cases stage with
  | drawing =>
    by_cases short : party.seen.size < size
    · exact ⟨_, .draw short⟩
    · exact ⟨_, .listen (Nat.le_of_not_lt short)⟩
  | receiving =>
    cases queue with
    | cons chunk queue => exact ⟨_, .receive⟩
    | nil =>
      cases rest with
      | nil => exact ⟨_, .hangUp⟩
      | cons p rest =>
        -- the share that is waited for has yet to be drawn
        by_cases short : p.seen.size < size
        · have turn : Step size len ⟨party, .receiving, [] ++ p :: rest, []⟩
              ⟨party, .receiving, [] ++ p.draw :: rest, []⟩ := .shareDraw short
          exact ⟨_, turn⟩
        · have turn : Step size len ⟨party, .receiving, [] ++ p :: rest, []⟩
              ⟨party, .receiving, [] ++ rest, [] ++ [p.seen]⟩ := .send (Nat.le_of_not_lt short)
          exact ⟨_, turn⟩
  | completing =>
    by_cases short : party.seen.size < len
    · exact ⟨_, .complete short⟩
    · exact ⟨_, .finish (Nat.le_of_not_lt short)⟩
  | done => exact absurd rfl unfinished

/-- When the sample is complete, all shares are in it. -/
theorem assembled (traced : Traced size len draw others s got sent) (done : s.stage = .done) :
    (got.map Party.draws).Perm others ∧
      ∃ own, Assembled size len own got s.first ∧ own.draws = draw := by
  obtain ⟨none_sent, none_left⟩ := traced.alone (.inr done)
  have everyone := traced.everyone
  rw [none_sent, none_left, List.append_nil, List.append_nil] at everyone
  have full : ∀ q ∈ got, q.Full size := fun q member =>
    traced.full q (List.mem_append_left sent member)
  have first := traced.first
  rw [done] at first
  generalize s.first = party at first ⊢
  cases first with
  | done share draws advances enough => exact ⟨everyone, _, ⟨share, full, advances, enough⟩, draws⟩

end Traced

/-- Every value of a sample was drawn by one of the parties. -/
theorem Assembled.drawn {v : Int64} (assembled : Assembled size len own got p)
    (member : v ∈ p.seen) :
    ∃ d ∈ own.draws :: got.map Party.draws, ∃ i, d i = v := by
  have byOne : ∀ {q : Party}, q.Full size → v ∈ q.seen → ∃ i, q.draws i = v := by
    intro q full there
    rcases full.advances.mem there with nothing | drawn
    · simp [Party.fresh] at nothing
    · exact drawn
  rcases assembled.advances.mem member with before | ⟨i, drawn⟩
  · rcases mem_foldl_absorb.1 before with inOwn | ⟨c, inGot, there⟩
    · exact ⟨own.draws, List.mem_cons_self, byOne assembled.share inOwn⟩
    · obtain ⟨q, among, rfl⟩ := List.mem_map.1 inGot
      exact ⟨q.draws, List.mem_cons_of_mem _ (List.mem_map_of_mem among),
        byOne (assembled.shares q among) there⟩
  · exact ⟨own.draws, List.mem_cons_self, i, drawn⟩

/-! ## Every order of the shares -/

namespace Session.Reachable

variable {first : Party} {stage : Stage} {before after : List Party}
  {channel : List (Std.HashSet Int64)}

/-- One of the others may draw as long as it has to, while all wait for it. -/
theorem advance
    (reachable : Reachable parties len draw others ⟨first, stage, before ++ p :: after, channel⟩)
    (advances : p.Advances (share parties len) q) :
    Reachable parties len draw others ⟨first, stage, before ++ q :: after, channel⟩ := by
  induction advances with
  | refl => exact reachable
  | draw _ short ih => exact .step ih (.shareDraw short)

/-- The others may send their shares in any order. -/
theorem send_all {waiting : List Draws} (full : ∀ q ∈ got, q.Full (share parties len))
    (everyone : (got.map Party.draws).Perm waiting)
    (reachable : Reachable parties len draw others ⟨first, stage, waiting.map .fresh, channel⟩) :
    Reachable parties len draw others ⟨first, stage, [], channel ++ got.map Party.seen⟩ := by
  induction got generalizing waiting channel with
  | nil =>
    obtain rfl := everyone.nil_eq
    rwa [List.map_nil, List.append_nil]
  | cons q rest ih =>
    have among : q.draws ∈ waiting := everyone.subset List.mem_cons_self
    obtain ⟨before, after, rfl⟩ := List.append_of_mem among
    have others_left : (rest.map Party.draws).Perm (before ++ after) :=
      (everyone.trans List.perm_middle).cons_inv
    rw [List.map_append, List.map_cons] at reachable
    have ready := full q List.mem_cons_self
    have sends := Reachable.step (reachable.advance ready.advances) (.send ready.full)
    rw [← List.map_append] at sends
    have all_sent := ih (fun r member => full r (List.mem_cons_of_mem q member)) others_left sends
    rwa [List.append_assoc] at all_sent

/-- The first party may draw as long as it has to. -/
theorem draw_all (reachable : Reachable parties len draw others ⟨p, .drawing, before, channel⟩)
    (advances : p.Advances (share parties len) q) :
    Reachable parties len draw others ⟨q, .drawing, before, channel⟩ := by
  induction advances with
  | refl => exact reachable
  | draw _ short ih => exact .step ih (.draw short)

theorem receive_all (reachable : Reachable parties len draw others
    ⟨own, .receiving, before, got.map Party.seen⟩) :
    Reachable parties len draw others ⟨own.merged got, .receiving, before, []⟩ := by
  induction got generalizing own with
  | nil => exact reachable
  | cons q rest ih =>
    have next : Reachable parties len draw others
        ⟨own.take q.seen, .receiving, before, rest.map Party.seen⟩ := .step reachable .receive
    exact ih next

theorem complete_all
    (reachable : Reachable parties len draw others ⟨p, .completing, before, channel⟩)
    (advances : p.Advances len q) :
    Reachable parties len draw others ⟨q, .completing, before, channel⟩ := by
  induction advances with
  | refl => exact reachable
  | draw _ short ih => exact .step ih (.complete short)

end Session.Reachable

/-- Parties side by side come to the samples that parties one after another come to, for all orders
in which the shares can come in, with their values in any order. -/
theorem outcome_iff (count : others.length + 1 = max parties 1) :
    Outcome parties len draw others data ↔ ∃ limit order sampled, order.Perm others ∧
      sample limit draw order len = some sampled ∧ data.Perm sampled := by
  constructor
  · rintro ⟨s, reachable, done, listed⟩
    obtain ⟨got, sent, traced⟩ := reachable.traced
    obtain ⟨everyone, own, assembled, draws⟩ := traced.assembled done
    have size : share ((got.map Party.draws).length + 1) len = share parties len := by
      rw [everyone.length_eq, share_eq count]
    obtain ⟨limit, answered⟩ := exists_sample_iff.2
      ⟨own, got, s.first, size.symm ▸ assembled, draws, rfl, rfl⟩
    exact ⟨limit, _, _, everyone, answered, listed⟩
  · rintro ⟨limit, order, sampled, everyone, answered, listed⟩
    obtain ⟨own, got, p, assembled, rfl, rfl, rfl⟩ := exists_sample_iff.1 ⟨limit, answered⟩
    rw [everyone.length_eq, share_eq count] at assembled
    have fresh : Reachable parties len own.draws others
        ⟨.fresh own.draws, .drawing, others.map .fresh, []⟩ := .start
    have sent := fresh.send_all assembled.shares everyone
    have listens := Reachable.step (sent.draw_all assembled.share.advances)
      (.listen assembled.share.full)
    have completes := Reachable.step listens.receive_all .hangUp
    have finished := Reachable.step (completes.complete_all assembled.advances)
      (.finish assembled.full)
    exact ⟨_, finished, rfl, listed⟩

/-- For any number of parties, none included, and any draws: however the parties take turns, the
first one never has more values than the sample is to have, somebody has a turn to take until the
sample is complete, and then the sample is any list with the values of one of those that `sample`
answers for the orders in which the shares can come in. It has as many values as were asked for, no
two of them the same, each of them drawn by some party, and in both workloads no look-up and no
removal of it fails, in whatever order the values come out. -/
theorem outcome_distinct (count : others.length + 1 = max parties 1) :
    (∀ s, Reachable parties len draw others s → s.first.seen.size ≤ len ∧
      (s.stage ≠ .done → ∃ t, Step (share parties len) len s t)) ∧
    ∀ data, (Outcome parties len draw others data ↔ ∃ limit order sampled, order.Perm others ∧
        sample limit draw order len = some sampled ∧ data.Perm sampled) ∧
      (Outcome parties len draw others data → data.length = len ∧ data.Nodup ∧
        (∀ v ∈ data, ∃ d ∈ draw :: others, ∃ i, d i = v) ∧ Passes data) := by
  have fits : share parties len * (others.length + 1) ≤ len := share_mul_le count
  refine ⟨fun s reachable => ?_, fun data => ⟨outcome_iff count, ?_⟩⟩
  · obtain ⟨got, sent, traced⟩ := reachable.traced
    exact ⟨traced.size_le fits, traced.exists_step⟩
  · rintro ⟨s, reachable, done, listed⟩
    obtain ⟨got, sent, traced⟩ := reachable.traced
    obtain ⟨everyone, own, assembled, rfl⟩ := traced.assembled done
    have nodup : data.Nodup := listed.nodup_iff.2 (nodup_toList s.first.seen)
    refine ⟨?_, nodup, ?_, passes_of_nodup nodup⟩
    · rw [listed.length_eq, Std.HashSet.length_toList]
      exact Nat.le_antisymm (traced.size_le fits) assembled.full
    · intro v member
      have seen : v ∈ s.first.seen := Std.HashSet.mem_toList.1 (listed.mem_iff.1 member)
      obtain ⟨d, among, drawn⟩ := assembled.drawn seen
      exact ⟨d, ((everyone.cons own.draws).mem_iff).1 among, drawn⟩

/-- Three parties draw a sample of eight values from the same numbers, so that the shares of two
values are the same three times, and the last six values are drawn in the end. All of its orders
may come out. -/
theorem outcome_of_same_draws :
    ([fun i => .ofNat (i / 2), fun i => .ofNat (i / 2)] : List Draws).length + 1 = max 3 1 ∧
    share 3 8 = 2 ∧
    ∃ sampled, sample 8 Int64.ofNat [fun i => .ofNat (i / 2), fun i => .ofNat (i / 2)] 8 =
        some sampled ∧
      ∀ data, data.Perm sampled →
        Outcome 3 8 Int64.ofNat [fun i => .ofNat (i / 2), fun i => .ofNat (i / 2)] data ∧
        data.length = 8 ∧ data.Nodup ∧ ∃ m, pooled.runWithChurn data = .ok m := by
  obtain ⟨sampled, answered⟩ : ∃ sampled, sample 8 Int64.ofNat
      [fun i => .ofNat (i / 2), fun i => .ofNat (i / 2)] 8 = some sampled := by
    apply sample_ends
    · decide
    · simp only [List.forall_mem_cons, List.not_mem_nil, false_imp_iff, implies_true]
      decide
  have count : ([fun i => .ofNat (i / 2), fun i => .ofNat (i / 2)] : List Draws).length + 1 =
      max 3 1 := rfl
  refine ⟨count, rfl, sampled, answered, fun data listed => ?_⟩
  obtain ⟨-, outcomes⟩ := @outcome_distinct 3 8 Int64.ofNat _ count
  obtain ⟨same, distinct⟩ := outcomes data
  have outcome := same.2 ⟨8, _, sampled, .refl _, answered, listed⟩
  obtain ⟨length, nodup, -, passes⟩ := distinct outcome
  have small : data.length ≤ maxCapacity := by
    rw [length]
    decide
  exact ⟨outcome, length, nodup, passes.pooled small⟩

end BoundedMap.Bench
