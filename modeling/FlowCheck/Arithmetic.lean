/-!
# Powers and sums

Powers and sums of numbers are those of the core library in every module, also in one that imports
algebra, so that a number is written in one way only.
-/

namespace FlowCheck

attribute [scoped instance(high)] instPowNat Zero.ofOfNat0
attribute [default_instance(high + 1)] instPowNat

end FlowCheck
