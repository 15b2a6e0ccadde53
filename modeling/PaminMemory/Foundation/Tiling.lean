import Mathlib.Algebra.GroupWithZero.Nat
import Mathlib.Data.List.Basic
import Mathlib.Order.Basic

/-!
# Stretches laid end to end

Stretches of positions cover an interval, in order and without overlap, when only
slack positions lie between them.  Cutting a stretch further, dropping an empty one
and joining neighbours keep the cover.
-/

namespace PaminMemory
namespace Foundation

structure Stretch where
  start : Nat
  stop : Nat
deriving DecidableEq, Repr

def Stretch.length (stretch : Stretch) : Nat :=
  stretch.stop - stretch.start

def Stretch.Empty (stretch : Stretch) : Prop :=
  stretch.stop <= stretch.start

instance (stretch : Stretch) : Decidable stretch.Empty := by
  unfold Stretch.Empty
  infer_instance

def Slack (slack : Nat -> Prop) (start stop : Nat) : Prop :=
  forall position, start <= position -> position < stop -> slack position

def Tiles (slack : Nat -> Prop) : Nat -> Nat -> List Stretch -> Prop
  | start, stop, [] => start <= stop ∧ Slack slack start stop
  | start, stop, piece :: pieces =>
      start <= piece.start ∧ Slack slack start piece.start ∧ piece.start <= piece.stop ∧
        Tiles slack piece.stop stop pieces

section Slack

variable {slack : Nat -> Prop} {start middle stop : Nat}

theorem slack_nothing (h : stop <= start) : Slack slack start stop := by
  intro position hstart hstop
  exact absurd (Nat.lt_of_le_of_lt hstart hstop) (Nat.not_lt.mpr h)

theorem Slack.append (hleft : Slack slack start middle) (hright : Slack slack middle stop) :
    Slack slack start stop := by
  intro position hstart hstop
  cases Nat.lt_or_ge position middle with
  | inl hbefore =>
      exact hleft position hstart hbefore
  | inr hafter =>
      exact hright position hafter hstop

theorem Slack.narrow {start' stop' : Nat} (h : Slack slack start stop) (hstart : start <= start')
    (hstop : stop' <= stop) : Slack slack start' stop' := by
  intro position hfrom hto
  exact h position (Nat.le_trans hstart hfrom) (Nat.lt_of_lt_of_le hto hstop)

end Slack

section Tiles

variable {slack : Nat -> Prop} {start stop : Nat} {pieces : List Stretch}

theorem Tiles.le : forall {pieces : List Stretch} {start : Nat},
    Tiles slack start stop pieces -> start <= stop
  | [], _, h => h.left
  | piece :: pieces, _, h => by
      have hrest : piece.stop <= stop := Tiles.le h.right.right.right
      have hfirst := h.left
      have hpiece := h.right.right.left
      omega

theorem Tiles.slack_before {start' : Nat} (h : Tiles slack start stop pieces)
    (hle : start' <= start) (hslack : Slack slack start' start) :
    Tiles slack start' stop pieces := by
  cases pieces with
  | nil =>
      exact ⟨Nat.le_trans hle h.left, hslack.append h.right⟩
  | cons piece pieces =>
      rcases h with ⟨hstart, hbefore, hrest⟩
      exact ⟨Nat.le_trans hle hstart, hslack.append hbefore, hrest⟩

theorem Tiles.slack_after {stop' : Nat} (hle : stop <= stop')
    (hslack : Slack slack stop stop') : forall {pieces : List Stretch} {start : Nat},
    Tiles slack start stop pieces -> Tiles slack start stop' pieces
  | [], _, h => ⟨Nat.le_trans h.left hle, h.right.append hslack⟩
  | _ :: _, _, ⟨hstart, hbefore, hpiece, hrest⟩ =>
      ⟨hstart, hbefore, hpiece, Tiles.slack_after hle hslack hrest⟩

theorem Tiles.append {middle : Nat} {more : List Stretch}
    (hmore : Tiles slack middle stop more) : forall {pieces : List Stretch} {start : Nat},
    Tiles slack start middle pieces -> Tiles slack start stop (pieces ++ more)
  | [], _, h => hmore.slack_before h.left h.right
  | _ :: _, _, ⟨hstart, hbefore, hpiece, hrest⟩ =>
      ⟨hstart, hbefore, hpiece, Tiles.append hmore hrest⟩

theorem Tiles.split {more : List Stretch} : forall {pieces : List Stretch} {start : Nat},
    Tiles slack start stop (pieces ++ more) ->
      exists middle, Tiles slack start middle pieces ∧ Tiles slack middle stop more
  | [], start, h => ⟨start, ⟨Nat.le_refl start, slack_nothing (Nat.le_refl start)⟩, h⟩
  | _ :: _, _, ⟨hstart, hbefore, hpiece, hrest⟩ => by
      rcases Tiles.split hrest with ⟨middle, hfirst, hsecond⟩
      exact ⟨middle, ⟨hstart, hbefore, hpiece, hfirst⟩, hsecond⟩

theorem tiles_singleton (h : start <= stop) : Tiles slack start stop [⟨start, stop⟩] :=
  ⟨Nat.le_refl start, slack_nothing (Nat.le_refl start), h, Nat.le_refl stop,
    slack_nothing (Nat.le_refl stop)⟩

theorem Tiles.refineBy {item : Type _} {range : item -> Stretch} {cut : item -> List Stretch} :
    forall {items : List item} {start : Nat}, Tiles slack start stop (items.map range) ->
      (forall i, i ∈ items -> Tiles slack (range i).start (range i).stop (cut i)) ->
      Tiles slack start stop (items.flatMap cut)
  | [], _, h, _ => h
  | i :: items, start, ⟨hstart, hbefore, _, hrest⟩, hcut => by
      have hfirst := (hcut i List.mem_cons_self).slack_before hstart hbefore
      have hothers := Tiles.refineBy hrest fun other hother =>
        hcut other (List.mem_cons_of_mem i hother)
      rw [List.flatMap_cons]
      exact Tiles.append hothers hfirst

theorem Tiles.refine {cut : Stretch -> List Stretch} (h : Tiles slack start stop pieces)
    (hcut : forall piece, piece ∈ pieces -> Tiles slack piece.start piece.stop (cut piece)) :
    Tiles slack start stop (pieces.flatMap cut) := by
  rw [← List.map_id pieces] at h
  exact h.refineBy hcut

theorem Tiles.filter {keep : Stretch -> Bool} :
    forall {pieces : List Stretch} {start : Nat}, Tiles slack start stop pieces ->
      (forall piece, piece ∈ pieces -> keep piece = false -> Slack slack piece.start piece.stop) ->
      Tiles slack start stop (pieces.filter keep)
  | [], _, h, _ => h
  | piece :: pieces, start, ⟨hstart, hbefore, hpiece, hrest⟩, hdropped => by
      have hothers : Tiles slack piece.stop stop (pieces.filter keep) :=
        Tiles.filter hrest fun other hother =>
          hdropped other (List.mem_cons_of_mem piece hother)
      cases hkeep : keep piece with
      | true =>
          rw [List.filter_cons_of_pos hkeep]
          exact ⟨hstart, hbefore, hpiece, hothers⟩
      | false =>
          rw [List.filter_cons_of_neg (by simp [hkeep])]
          have hslack := hdropped piece List.mem_cons_self hkeep
          exact (hothers.slack_before hpiece hslack).slack_before hstart hbefore

theorem Tiles.slack_all (h : Tiles slack start stop pieces)
    (hpieces : forall piece, piece ∈ pieces -> Slack slack piece.start piece.stop) :
    Slack slack start stop := by
  have hnone : Tiles slack start stop (pieces.filter fun _ => false) :=
    h.filter fun piece hpiece _ => hpieces piece hpiece
  rw [List.filter_false] at hnone
  exact hnone.right

theorem Tiles.join {first second : Stretch}
    (h : Tiles slack start stop (first :: second :: pieces)) :
    Tiles slack start stop (⟨first.start, second.stop⟩ :: pieces) := by
  rcases h with ⟨hstart, hbefore, hfirst, hnext, _, hsecond, hrest⟩
  exact ⟨hstart, hbefore, Nat.le_trans hfirst (Nat.le_trans hnext hsecond), hrest⟩

theorem Tiles.join_all {last : Stretch} : forall {pieces : List Stretch} {first : Stretch},
    Tiles slack start stop (first :: (pieces ++ [last])) ->
      Tiles slack start stop [⟨first.start, last.stop⟩]
  | [], _, h => h.join
  | second :: pieces, first, h => by
      have hjoined : Tiles slack start stop (⟨first.start, second.stop⟩ :: (pieces ++ [last])) :=
        h.join
      have hall : Tiles slack start stop
          [⟨(⟨first.start, second.stop⟩ : Stretch).start, last.stop⟩] := Tiles.join_all hjoined
      exact hall

theorem Tiles.bounds : forall {pieces : List Stretch} {start : Nat},
    Tiles slack start stop pieces -> forall piece, piece ∈ pieces ->
      start <= piece.start ∧ piece.start <= piece.stop ∧ piece.stop <= stop
  | first :: pieces, start, ⟨hstart, _, hfirst, hrest⟩, piece, hmem => by
      cases List.mem_cons.mp hmem with
      | inl heq =>
          rw [heq]
          exact ⟨hstart, hfirst, hrest.le⟩
      | inr hlater =>
          have h := Tiles.bounds hrest piece hlater
          omega

theorem Tiles.covers : forall {pieces : List Stretch} {start : Nat},
    Tiles slack start stop pieces -> forall position, start <= position -> position < stop ->
      (forall piece, piece ∈ pieces -> ¬(piece.start <= position ∧ position < piece.stop)) ->
        slack position
  | [], _, h, position, hstart, hstop, _ => h.right position hstart hstop
  | first :: pieces, start, ⟨_, hbefore, _, hrest⟩, position, hstart, hstop, hout => by
      cases Nat.lt_or_ge position first.start with
      | inl hless =>
          exact hbefore position hstart hless
      | inr hge =>
          have hfirst := hout first List.mem_cons_self
          have hafter : first.stop <= position := by omega
          exact Tiles.covers hrest position hafter hstop fun piece hpiece =>
            hout piece (List.mem_cons_of_mem first hpiece)

theorem Tiles.ordered : forall {pieces : List Stretch} {start : Nat},
    Tiles slack start stop pieces ->
      pieces.Pairwise fun earlier later => earlier.stop <= later.start
  | [], _, _ => List.Pairwise.nil
  | first :: pieces, _, ⟨_, _, _, hrest⟩ => by
      apply List.pairwise_cons.mpr
      constructor
      · intro later hlater
        exact (Tiles.bounds hrest later hlater).left
      · exact Tiles.ordered hrest

theorem Tiles.length_le : forall {pieces : List Stretch} {start : Nat},
    Tiles slack start stop pieces -> (pieces.map Stretch.length).sum <= stop - start
  | [], _, _ => Nat.zero_le _
  | first :: pieces, start, ⟨hstart, _, hfirst, hrest⟩ => by
      have hothers := Tiles.length_le hrest
      have hle := hrest.le
      have hpiece : first.length = first.stop - first.start := rfl
      rw [List.map_cons, List.sum_cons]
      omega

end Tiles

/-!
## Windows between bounds
-/

def windows : List Nat -> List Stretch
  | [] => []
  | [_] => []
  | first :: second :: bounds => ⟨first, second⟩ :: windows (second :: bounds)

def Stretch.shift (offset : Nat) (stretch : Stretch) : Stretch :=
  ⟨offset + stretch.start, offset + stretch.stop⟩

section Windows

variable {slack : Nat -> Prop}

theorem windows_shift (offset : Nat) : forall bounds : List Nat,
    (windows bounds).map (Stretch.shift offset) = windows (bounds.map (offset + ·))
  | [] => rfl
  | [_] => rfl
  | first :: second :: bounds => by
      have hrest := windows_shift offset (second :: bounds)
      simp only [windows, List.map_cons] at hrest ⊢
      rw [hrest]
      rfl

theorem tiles_windows {stop : Nat} : forall {bounds : List Nat} {start : Nat},
    (start :: bounds).Pairwise (· <= ·) -> (start :: bounds).getLast? = some stop ->
      Tiles slack start stop (windows (start :: bounds))
  | [], start, _, hlast => by
      have heq : start = stop := by simpa using hlast
      subst heq
      exact ⟨Nat.le_refl start, slack_nothing (Nat.le_refl start)⟩
  | second :: bounds, start, hsorted, hlast => by
      have hle : start <= second := (List.pairwise_cons.mp hsorted).left second List.mem_cons_self
      have hrest : (second :: bounds).Pairwise (· <= ·) := (List.pairwise_cons.mp hsorted).right
      have hlast' : (second :: bounds).getLast? = some stop := by
        rw [← hlast]
        simp [List.getLast?_cons_cons]
      exact ⟨Nat.le_refl start, slack_nothing (Nat.le_refl start), hle, tiles_windows hrest hlast'⟩

theorem tiles_windows_shift {bounds : List Nat} {length : Nat}
    (hsorted : bounds.Pairwise (· <= ·)) (hfirst : bounds.head? = some 0)
    (hlast : bounds.getLast? = some length) (start : Nat) :
    Tiles slack start (start + length) ((windows bounds).map (Stretch.shift start)) := by
  cases bounds with
  | nil => cases hfirst
  | cons first rest =>
      cases hfirst
      rw [windows_shift, List.map_cons]
      apply tiles_windows
      · have hshifted : ((0 :: rest).map (start + ·)).Pairwise (· <= ·) := by
          apply List.pairwise_map.mpr
          apply hsorted.imp
          intro earlier later hle
          exact Nat.add_le_add_left hle start
        exact hshifted
      · have hmap : ((0 :: rest).map (start + ·)).getLast? = some (start + length) := by
          rw [List.getLast?_map, hlast]
          rfl
        exact hmap

end Windows

end Foundation
end PaminMemory
