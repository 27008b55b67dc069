/-!
# The tavern

The sample grammar: chatter in a tavern.
-/

namespace TextGrammar

/-- The source of the sample grammar. -/
def tavernSource : String :=
  "# Tavern chatter, the playground sample;
# [optional] and (plain) groups, >$forced picks, ^ joins, \\ capitalizes;

$s = \\$opening, $patron $action [$where]. [\\$aside.]
   | \\$patron ^'s $drink is $quality, [or so ]they say.
   | \\>$regular orders another $drink and (grumbles|hums) about $topic.;

$opening = late one evening | just after dark | on a (stormy|foggy|quiet) night;

$patron = a [$adjective ]$person | $regular;
$regular = the blacksmith | old Maggie | the one-eyed bard;
$adjective = weary | loud | suspicious | cheerful;
$person = traveller | sailor | merchant | farmhand;

$action = (slams|sets) a coin on the bar
        | starts a song
        | asks about the old mine
        | falls asleep by the fire;
$where = by the door | near the hearth | in the corner booth;
$aside = nobody (says|notices) a thing | the barkeep sighs | a dog barks outside;

$drink = ale | cider | mead | $quality wine;
$quality = watered down | excellent | (suspiciously|surprisingly) cheap;
$topic = the weather | the taxes | $regular;
"

end TextGrammar
