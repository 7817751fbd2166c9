/-
# ScanChain.Arithmetic — powers and sums of natural numbers

Widths, words and thresholds are counted in powers of two, and the widths of fields and segments
are added up. The program is built on core alone; its theory also sees a library in which every
monoid has a power and a zero, and where those are preferred. Here core's come first, so that a
definition is the same term wherever it is read.
-/

attribute [instance (high), default_instance high] instPowNat
attribute [instance (high)] Zero.ofOfNat0
